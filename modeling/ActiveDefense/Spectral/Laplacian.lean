import ActiveDefense.Spectral.Graph
import Mathlib.Combinatorics.SimpleGraph.LapMatrix

/-!
# The Laplacian of a graph

`laplacian` writes the matrix of degrees and neighbours out; `laplacian_matvec` multiplies it by a
vector without writing it out. The first assigns `-1` once for each neighbour, the second subtracts
once for each entry of a list. Since the lists of a graph are those of a simple graph
(`Graph.Valid`), both are the Laplacian matrix of that simple graph (`laplacian_eq`,
`laplacianMatvec_eq`). The numbers are those of an arbitrary ring: exact arithmetic.
-/

namespace ActiveDefense.Spectral.Graph

open Matrix

variable (R : Type) [CommRing R] (g : Graph)

/-- The row of a node in `laplacian`: the degree, then `-1` for each neighbour. -/
def laplacianRow (i : Nat) : List R :=
  (g.nbrs i).foldl (fun row j => row.set j (-1))
    ((List.replicate g.numNodes 0).set i ((g.nbrs i).length : R))

/-- `Graph::laplacian`. -/
def laplacian : List (List R) := (List.range g.numNodes).map (laplacianRow R g)

/-- The matrix that `laplacian` writes out. -/
def laplacianMatrix : Matrix (Fin g.numNodes) (Fin g.numNodes) R := fun i j =>
  ((laplacian R g).getD i []).getD j 0

variable {R}

/-- `Graph::laplacian_matvec`, of a vector with an entry for each node. -/
def laplacianMatvec (v : List R) : List R :=
  (List.range g.numNodes).map fun i =>
    (g.nbrs i).foldl (fun acc j => acc - v.getD j 0) ((g.nbrs i).length * v.getD i 0)

/-- A matrix, row by row, times a vector. -/
def mulVec (l : List (List R)) (v : List R) : List R :=
  l.map fun row => (List.zipWith (· * ·) row v).sum

variable {g}

/-! ## As matrices -/

instance decidableSimple (g : Graph) : DecidableRel g.simple.Adj :=
  inferInstanceAs (DecidableRel (SimpleGraph.fromRel fun u v : Fin g.numNodes =>
    v.val ∈ g.nbrs u.val).Adj)

omit [CommRing R] in
theorem length_foldl_set (js : List Nat) (a : R) (row : List R) :
    (js.foldl (fun row j => row.set j a) row).length = row.length := by
  induction js generalizing row with
  | nil => rfl
  | cons j js ih => rw [List.foldl_cons, ih, List.length_set]

omit [CommRing R] in
theorem getElem?_foldl_set (js : List Nat) (a : R) {row : List R} {k : Nat} (hk : k < row.length) :
    (js.foldl (fun row j => row.set j a) row)[k]? = if k ∈ js then some a else row[k]? := by
  induction js generalizing row with
  | nil => simp
  | cons j js ih =>
    rw [List.foldl_cons, ih (by simpa using hk), List.getElem?_set]
    grind

theorem map_neighborFinset (h : g.Valid) (i : Fin g.numNodes) :
    (g.simple.neighborFinset i).map Fin.valEmbedding = (g.nbrs i).toFinset := by
  ext j
  simp only [Finset.mem_map, SimpleGraph.mem_neighborFinset, h.simple_adj, List.mem_toFinset,
    Fin.valEmbedding_apply]
  constructor
  · rintro ⟨j, hj, rfl⟩
    exact hj
  · intro hj
    exact ⟨⟨j, h.inRange i j hj⟩, hj, rfl⟩

/-- A sum over the neighbours of a node. -/
theorem sum_neighborFinset (h : g.Valid) (i : Fin g.numNodes) (f : Nat → R) :
    ∑ j ∈ g.simple.neighborFinset i, f j.val = ((g.nbrs i).map f).sum := by
  rw [← List.sum_toFinset f (h.nodup i), ← map_neighborFinset h i, Finset.sum_map]
  rfl

theorem degree_eq (h : g.Valid) (i : Fin g.numNodes) :
    g.simple.degree i = (g.nbrs i).length := by
  rw [← SimpleGraph.card_neighborFinset_eq_degree, ← Finset.card_map Fin.valEmbedding,
    map_neighborFinset h i, List.toFinset_card_of_nodup (h.nodup i)]

/-- `laplacian` is the Laplacian matrix of the simple graph. -/
theorem laplacian_eq (h : g.Valid) :
    laplacian R g = List.ofFn fun i => List.ofFn fun j => g.simple.lapMatrix R i j := by
  refine List.ext_getElem (by simp [laplacian]) fun i hi _ => ?_
  have hi' : i < g.numNodes := by simpa [laplacian] using hi
  simp only [laplacian, List.getElem_map, List.getElem_range, List.getElem_ofFn]
  have hlen : (laplacianRow R g i).length = g.numNodes := by
    rw [laplacianRow, length_foldl_set, List.length_set, List.length_replicate]
  refine List.ext_getElem (by simpa using hlen) fun j hj _ => ?_
  have hj' : j < g.numNodes := hlen ▸ hj
  rw [List.getElem_ofFn]
  have hrow : (laplacianRow R g i)[j]? =
      some (g.simple.lapMatrix R ⟨i, hi'⟩ ⟨j, hj'⟩) := by
    rw [laplacianRow, getElem?_foldl_set _ _ (by simpa using hj'), List.getElem?_set]
    simp only [SimpleGraph.lapMatrix, SimpleGraph.degMatrix, Matrix.sub_apply,
      Matrix.diagonal_apply, SimpleGraph.adjMatrix_apply, h.simple_adj, degree_eq h, Fin.mk.injEq]
    by_cases hij : i = j
    · subst hij
      simp [h.loopless, hi']
    · by_cases hmem : j ∈ g.nbrs i
      · simp [hij, hmem]
      · simp [hij, hmem, hj']
  rw [List.getElem?_eq_getElem hj] at hrow
  exact Option.some.inj hrow

theorem laplacianMatrix_eq (h : g.Valid) : laplacianMatrix R g = g.simple.lapMatrix R := by
  ext i j
  rw [laplacianMatrix, laplacian_eq h, List.getD_eq_getElem?_getD, List.getD_eq_getElem?_getD,
    List.getElem?_ofFn, dif_pos i.isLt, Option.getD_some, List.getElem?_ofFn, dif_pos j.isLt,
    Option.getD_some]

theorem foldl_sub (js : List Nat) (f : Nat → R) (acc : R) :
    js.foldl (fun acc j => acc - f j) acc = acc - (js.map f).sum := by
  induction js generalizing acc with
  | nil => simp
  | cons j js ih => rw [List.foldl_cons, ih, List.map_cons, List.sum_cons, sub_sub]

theorem getD_ofFn {n : Nat} (v : Fin n → R) (j : Fin n) : (List.ofFn v).getD j.val 0 = v j := by
  rw [List.getD_eq_getElem?_getD, List.getElem?_ofFn, dif_pos j.isLt, Option.getD_some]

/-- `laplacian_matvec` is the product of that matrix with the vector. -/
theorem laplacianMatvec_eq (h : g.Valid) (v : Fin g.numNodes → R) :
    g.laplacianMatvec (List.ofFn v) = List.ofFn (g.simple.lapMatrix R *ᵥ v) := by
  refine List.ext_getElem (by simp [laplacianMatvec]) fun i hi _ => ?_
  have hi' : i < g.numNodes := by simpa [laplacianMatvec] using hi
  simp only [laplacianMatvec, List.getElem_map, List.getElem_range, List.getElem_ofFn]
  rw [foldl_sub, SimpleGraph.lapMatrix_mulVec_apply, degree_eq h, getD_ofFn v ⟨i, hi'⟩]
  simp only [← getD_ofFn v]
  rw [sum_neighborFinset h ⟨i, hi'⟩ fun j => (List.ofFn v).getD j 0]

/-- So is the product with the matrix that is written out. -/
theorem mulVec_ofFn {n : Nat} (M : Matrix (Fin n) (Fin n) R) (v : Fin n → R) :
    mulVec (List.ofFn fun i => List.ofFn fun j => M i j) (List.ofFn v) = List.ofFn (M *ᵥ v) := by
  refine List.ext_getElem (by simp [mulVec]) fun i hi _ => ?_
  have hzip : ∀ row : Fin n → R, List.zipWith (· * ·) (List.ofFn row) (List.ofFn v) =
      List.ofFn fun j => row j * v j := by
    intro row
    refine List.ext_getElem (by simp) fun j hj _ => ?_
    simp
  simp only [mulVec, List.getElem_map, List.getElem_ofFn]
  rw [hzip, List.sum_ofFn]
  rfl

/-- Whatever calls of `add_edge` a new graph gets, and whether they fail or not: the lists stay
symmetric, without loops and repetitions and in range; the Laplacian is symmetric with rows that sum
to zero; and the two ways to multiply it by a vector agree. -/
theorem laplacian_of_run {n : Nat} (h : new n = .ok g) (calls : List (Nat × Nat))
    {g' : Graph} (hrun : (Machine.run addEdge g calls).2 = g') :
    ((∀ u v, v ∈ g'.nbrs u → u ∈ g'.nbrs v) ∧ (∀ u, u ∉ g'.nbrs u) ∧ (∀ u, (g'.nbrs u).Nodup) ∧
      (∀ u v, v ∈ g'.nbrs u → u < n ∧ v < n) ∧ g'.adjacency.length = n) ∧
    (∀ i j, ((laplacian R g').getD i []).getD j 0 = ((laplacian R g').getD j []).getD i 0) ∧
    (∀ row ∈ laplacian R g', row.length = n ∧ row.sum = 0) ∧
    ∀ v : List R, v.length = n → g'.laplacianMatvec v = mulVec (laplacian R g') v := by
  obtain ⟨hn, -, -⟩ := nbrs_of_new h
  obtain ⟨hvalid, hnum⟩ := (valid_of_new h).run calls
  rw [hrun] at hvalid hnum
  obtain rfl : g'.numNodes = n := hnum.trans hn
  refine ⟨⟨hvalid.symm, hvalid.loopless, hvalid.nodup, fun u v hv => ?_, hvalid.length_eq⟩,
    fun i j => ?_, fun row hrow => ?_, fun v hv => ?_⟩
  · exact ⟨hvalid.lt_left hv, hvalid.inRange u v hv⟩
  · have hentry : ∀ i j, ((laplacian R g').getD i []).getD j 0 =
        if hij : i < g'.numNodes ∧ j < g'.numNodes then
          g'.simple.lapMatrix R ⟨i, hij.1⟩ ⟨j, hij.2⟩ else 0 := by
      intro i j
      rw [laplacian_eq hvalid, List.getD_eq_getElem?_getD, List.getD_eq_getElem?_getD,
        List.getElem?_ofFn]
      by_cases hi : i < g'.numNodes
      · by_cases hj : j < g'.numNodes
        · simp [hi, hj]
        · simp [hi, hj]
      · simp [hi]
    rw [hentry, hentry]
    by_cases hij : i < g'.numNodes ∧ j < g'.numNodes
    · rw [dif_pos hij, dif_pos hij.symm]
      exact (SimpleGraph.isSymm_lapMatrix R g'.simple).apply _ _
    · rw [dif_neg hij, dif_neg fun hji => hij hji.symm]
  · rw [laplacian_eq hvalid] at hrow
    obtain ⟨i, rfl⟩ := List.mem_ofFn.mp hrow
    refine ⟨List.length_ofFn, ?_⟩
    have hzero : (g'.simple.lapMatrix R *ᵥ fun _ => 1) i = 0 :=
      congrFun (SimpleGraph.lapMatrix_mulVec_const_eq_zero g'.simple) i
    rw [List.sum_ofFn, ← hzero]
    simp only [Matrix.mulVec, dotProduct, mul_one]
  · have hofFn : v = List.ofFn fun i : Fin g'.numNodes => v.getD i 0 := by
      refine List.ext_getElem (by simpa using hv) fun i hi _ => ?_
      rw [List.getElem_ofFn, List.getD_eq_getElem?_getD, List.getElem?_eq_getElem hi,
        Option.getD_some]
    rw [hofFn, laplacianMatvec_eq hvalid, laplacian_eq hvalid, mulVec_ofFn]

/-- After a repetition, a loop and a node out of range. -/
theorem laplacian_of_run_calls :
    ∃ g g' : Graph, new 3 = .ok g ∧
      (Machine.run addEdge g [(0, 1), (1, 0), (2, 2), (0, 7), (1, 2)]).2 = g' ∧
      g'.nbrs 1 = [0, 2] ∧ g'.laplacianMatvec [1, 2, 4] = mulVec (laplacian ℤ g') [1, 2, 4] := by
  have hnew : new 3 = .ok { numNodes := 3, adjacency := [[], [], []] } := rfl
  have hrun : (Machine.run addEdge { numNodes := 3, adjacency := [[], [], []] }
      [(0, 1), (1, 0), (2, 2), (0, 7), (1, 2)]).2 =
      { numNodes := 3, adjacency := [[1], [0, 2], [1]] } := rfl
  obtain ⟨-, -, -, hmatvec⟩ := laplacian_of_run (R := ℤ) hnew _ hrun
  exact ⟨_, _, hnew, hrun, rfl, hmatvec [1, 2, 4] rfl⟩

end ActiveDefense.Spectral.Graph
