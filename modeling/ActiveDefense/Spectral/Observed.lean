import ActiveDefense.Spectral.Connected
import ActiveDefense.Spectral.Regularizer

/-!
# The observed edges

The engine keeps the edges that it observes as a list of pairs of names. The list has two readers.
`rebuild_spectral` interns the names and builds a connected graph, in which a repeated edge makes no
difference (`build_repeat`). A regulariser's tick numbers the names and hands every edge on with the
weight 1, so an edge weighs as much as it is often observed (`tickLaplacian_repeat_iff`).
-/

namespace ActiveDefense.Spectral

open ActiveDefense.Spectral.Graph

/-- An edge as it is observed: the names of two entities. -/
abbrev ObservedEdge := Str × Str

/-! ## Names -/

/-- `intern` of `SpectralSecurityGraph::build`. -/
def intern (names : List Str) (e : Str) : Nat × List Str :=
  if e ∈ names then (names.idxOf e, names) else (names.length, names ++ [e])

/-- A turn of the loop of `build`. -/
def internEdge : Machine (List Str) ObservedEdge (Nat × Nat) := fun names edge =>
  let (u, names) := intern names edge.1
  let (v, names) := intern names edge.2
  ((u, v), names)

/-- A turn of the inner loop over the `edges_snapshot` of `ingest_cic`. -/
def addName (names : List Str) (e : Str) : List Str := if e ∈ names then names else names ++ [e]

/-- A turn of the outer loop. -/
def addNames (names : List Str) (edge : ObservedEdge) : List Str :=
  addName (addName names edge.1) edge.2

/-- The `node_set` of `ingest_cic`. -/
def nodeSet (edges : List ObservedEdge) : List Str := edges.foldl addNames []

theorem intern_eq (names : List Str) (e : Str) :
    intern names e = ((addName names e).idxOf e, addName names e) := by
  rw [intern, addName]
  split
  · rfl
  · rename_i hnew
    rw [List.idxOf_append_of_notMem hnew, List.idxOf_cons_self, Nat.add_zero]

theorem mem_addName {names : List Str} {e x : Str} : x ∈ addName names e ↔ x ∈ names ∨ x = e := by
  rw [addName]
  split
  · rename_i hold
    exact ⟨.inl, fun h => h.elim id fun h => h ▸ hold⟩
  · simp

theorem addName_of_mem {names : List Str} {e : Str} (h : e ∈ names) : addName names e = names :=
  if_pos h

theorem mem_addNames {names : List Str} {edge : ObservedEdge} {x : Str} :
    x ∈ addNames names edge ↔ x ∈ names ∨ x = edge.1 ∨ x = edge.2 := by
  rw [addNames, mem_addName, mem_addName, or_assoc]

theorem addNames_of_mem {names : List Str} {edge : ObservedEdge} (h1 : edge.1 ∈ names)
    (h2 : edge.2 ∈ names) : addNames names edge = names := by
  rw [addNames, addName_of_mem h1, addName_of_mem h2]

theorem addNames_again (names : List Str) (edge : ObservedEdge) :
    addNames (addNames names edge) edge = addNames names edge :=
  addNames_of_mem (mem_addNames.mpr (.inr (.inl rfl))) (mem_addNames.mpr (.inr (.inr rfl)))

theorem idxOf_addName {names : List Str} {e x : Str} (h : x ∈ names) :
    (addName names e).idxOf x = names.idxOf x := by
  rw [addName]
  split
  · rfl
  · exact List.idxOf_append_of_mem h

/-- A turn numbers the ends of its edge as they are numbered after it. -/
theorem internEdge_eq (names : List Str) (edge : ObservedEdge) :
    internEdge names edge =
      (((addNames names edge).idxOf edge.1, (addNames names edge).idxOf edge.2),
        addNames names edge) := by
  have hfirst : edge.1 ∈ addName names edge.1 := mem_addName.mpr (.inr rfl)
  rw [internEdge]
  simp only [intern_eq]
  rw [addNames, idxOf_addName hfirst]

/-- The two readers number the names alike. -/
theorem run_internEdge (edges : List ObservedEdge) :
    (internEdge.run [] edges).2 = nodeSet edges := by
  have hrun : ∀ names, (internEdge.run names edges).2 = edges.foldl addNames names := by
    induction edges with
    | nil => exact fun names => rfl
    | cons edge edges ih =>
      intro names
      simp only [Machine.run, List.foldl_cons]
      rw [ih, internEdge_eq]
  exact hrun []

theorem nodeSet_repeat (edges : List ObservedEdge) (edge : ObservedEdge)
    (rest : List ObservedEdge) :
    nodeSet (edges ++ edge :: edge :: rest) = nodeSet (edges ++ edge :: rest) := by
  simp only [nodeSet, List.foldl_append, List.foldl_cons, addNames_again]

theorem nodup_addName {names : List Str} (h : names.Nodup) (e : Str) : (addName names e).Nodup := by
  rw [addName]
  split
  · exact h
  · rename_i hnew
    exact h.append (List.nodup_singleton e) (by simpa using hnew)

theorem nodup_nodeSet (edges : List ObservedEdge) : (nodeSet edges).Nodup := by
  have hfold : ∀ names : List Str, names.Nodup → (edges.foldl addNames names).Nodup := by
    intro names h
    induction edges generalizing names with
    | nil => exact h
    | cons edge edges ih => exact ih _ (nodup_addName (nodup_addName h _) _)
  exact hfold [] List.nodup_nil

theorem mem_nodeSet {edges : List ObservedEdge} {x : Str} :
    x ∈ nodeSet edges ↔ ∃ edge ∈ edges, x = edge.1 ∨ x = edge.2 := by
  have hfold : ∀ names : List Str, x ∈ edges.foldl addNames names ↔
      x ∈ names ∨ ∃ edge ∈ edges, x = edge.1 ∨ x = edge.2 := by
    intro names
    induction edges generalizing names with
    | nil => simp
    | cons edge edges ih =>
      rw [List.foldl_cons, ih, mem_addNames]
      simp only [List.exists_mem_cons_iff, or_assoc]
  rw [nodeSet, hfold]
  simp

/-! ## The connected graph -/

/-- `SpectralSecurityGraph`, with what `SpectralEmbedding::embed` makes of the graph; the table
`entity_to_node` is the inverse of `entityIndex`. -/
structure SpectralSecurityGraph (β : Type) where
  graph : Graph
  embedding : β
  entityIndex : List Str
  hubInjected : Bool

variable {β : Type}

/-- `SpectralSecurityGraph::build`, for an `embed` that may fail. -/
def SpectralSecurityGraph.build (embed : Graph → Option β) (edges : List ObservedEdge) :
    Option (SpectralSecurityGraph β) :=
  let (rawEdges, entityIndex) := internEdge.run [] edges
  let n := max entityIndex.length 2
  match buildConnectedGraph n rawEdges with
  | .error _ => none
  | .ok (graph, hubInjected) =>
    match embed graph with
    | none => none
    | some embedding => some { graph, embedding, entityIndex, hubInjected }

/-- `rebuild_spectral`. -/
def rebuildSpectral (embed : Graph → Option β) (edges : List ObservedEdge) :
    Option (SpectralSecurityGraph β) :=
  if edges.length < 2 then none else SpectralSecurityGraph.build embed edges

theorem buildConnectedGraph_repeat (n : Nat) (edges : List (Nat × Nat)) (edge : Nat × Nat) :
    buildConnectedGraph n (edges ++ [edge, edge]) = buildConnectedGraph n (edges ++ [edge]) := by
  simp only [buildConnectedGraph, List.append_assoc, List.cons_append, List.nil_append,
    fromEdges_repeat]

/-- An edge that is observed twice in a row makes no difference to the graph. -/
theorem build_repeat (embed : Graph → Option β) (edges : List ObservedEdge) (edge : ObservedEdge) :
    SpectralSecurityGraph.build embed (edges ++ [edge, edge]) =
      SpectralSecurityGraph.build embed (edges ++ [edge]) := by
  simp only [SpectralSecurityGraph.build, Machine.run_append, Machine.run, internEdge_eq,
    addNames_again, buildConnectedGraph_repeat]

/-- The graph of two nodes and an edge. -/
def pairGraph : Graph where
  numNodes := 2
  adjacency := [[1], [0]]

theorem buildConnectedGraph_pair : buildConnectedGraph 2 [(0, 1)] = .ok (pairGraph, false) := by
  decide +kernel

theorem build_pair (embed : Graph → Option β) {edge : ObservedEdge} (hedge : edge.1 ≠ edge.2) :
    SpectralSecurityGraph.build embed [edge] = none ↔ embed pairGraph = none := by
  have hnames : internEdge.run [] [edge] = ([(0, 1)], [edge.1, edge.2]) := by
    simp [Machine.run, internEdge, intern, hedge.symm]
  have htwo : max [edge.1, edge.2].length 2 = 2 := rfl
  simp only [SpectralSecurityGraph.build, hnames, htwo, buildConnectedGraph_pair]
  cases embed pairGraph with
  | none => exact iff_of_true rfl rfl
  | some embedding => exact iff_of_false (Option.some_ne_none _) (Option.some_ne_none _)

/-- An edge that is observed twice in a row makes no difference to what is rebuilt, unless it is the
first one: one edge alone is too few. -/
theorem rebuildSpectral_repeat_iff (embed : Graph → Option β) (edges : List ObservedEdge)
    {edge : ObservedEdge} (hedge : edge.1 ≠ edge.2) :
    rebuildSpectral embed (edges ++ [edge, edge]) = rebuildSpectral embed (edges ++ [edge]) ↔
      edges ≠ [] ∨ embed pairGraph = none := by
  have hlong : ¬ (edges ++ [edge, edge]).length < 2 := by
    rw [List.length_append]
    exact Nat.not_lt.mpr (Nat.le_add_left 2 _)
  rw [rebuildSpectral, if_neg hlong, build_repeat, rebuildSpectral]
  cases edges with
  | nil =>
    have hshort : [edge].length < 2 := Nat.lt_succ_self 1
    rw [List.nil_append, if_pos hshort, build_pair embed hedge]
    simp
  | cons first edges =>
    rw [if_neg]
    · simp
    · rw [List.length_append, List.length_cons]
      exact Nat.not_lt.mpr (Nat.le_add_left 2 _)

/-! ## The regulariser's Laplacian -/

variable {φ : Type} [FloatFns φ]

/-- The `phys` of `ingest_cic`: every edge that is no loop, with the weight 1. -/
def physicalEdges (nodes : List Str) (edges : List ObservedEdge) :
    List (PhysicalEdge nodes.length φ) :=
  edges.filterMap fun edge => do
    let u ← nodes.finIdxOf? edge.1
    let v ← nodes.finIdxOf? edge.2
    if u ≠ v then some (u, v, 1.0) else none

/-- The regulariser of an engine, of any number of nodes. -/
abbrev AnyRegularizer (φ : Type) := Σ n, Regularizer n φ

/-- The regulariser is made anew where it is of another size. -/
def resize (reg : AnyRegularizer φ) (n : Nat) : Regularizer n φ :=
  if h : reg.1 = n then h ▸ reg.2 else .new n 0.01 0.5

/-- The regulariser that the tick of `ingest_cic` is called on, if it is. -/
def tickedRegularizer (reg : AnyRegularizer φ) (edges : List ObservedEdge) :
    Option (AnyRegularizer φ) :=
  let nodes := nodeSet edges
  if 2 ≤ nodes.length then
    some ⟨nodes.length, (resize reg nodes.length).updatePhysicalEdges (physicalEdges nodes edges)⟩
  else none

/-- A `Vec<Vec<f32>>`. -/
def toLists {n : Nat} (l : Rows n φ) : List (List φ) := List.ofFn fun i => List.ofFn (l i)

/-- The Laplacian of the physical edges that the tick builds. -/
def tickLaplacian (reg : AnyRegularizer φ) (edges : List ObservedEdge) : Option (List (List φ)) :=
  (tickedRegularizer reg edges).map fun reg => toLists reg.2.buildPhysicalOnly

/-- How often two entities are observed together. -/
def together (edges : List ObservedEdge) (x y : Str) : Nat :=
  edges.countP fun edge => decide (edge = (x, y) ∨ edge = (y, x))

/-- How often an entity is observed with another one. -/
def degree (edges : List ObservedEdge) (x : Str) : Nat :=
  edges.countP fun edge => decide (edge.1 ≠ edge.2 ∧ (x = edge.1 ∨ x = edge.2))

/-- What `k` observations add to a sum that is zero. -/
def upBy (φ : Type) [FloatFns φ] (k : Nat) : φ := (· + (1.0 : φ))^[k] 0.0

/-- What `k` observations take from it. -/
def downBy (φ : Type) [FloatFns φ] (k : Nat) : φ := (· - (1.0 : φ))^[k] 0.0

theorem getElem_inj {nodes : List Str} (hnodes : nodes.Nodup) {i j : Fin nodes.length} :
    nodes[i] = nodes[j] ↔ i = j := by
  constructor
  · intro h
    exact Fin.ext (hnodes.getElem_inj_iff.mp h)
  · intro h
    rw [h]

theorem finIdxOf?_getElem {nodes : List Str} (hnodes : nodes.Nodup) (i : Fin nodes.length) :
    nodes.finIdxOf? nodes[i] = some i := by
  refine List.finIdxOf?_eq_some_iff.mpr ⟨rfl, fun j hj hji => ?_⟩
  exact absurd ((getElem_inj hnodes).mp hji) hj.ne

theorem physicalEdges_cons {nodes : List Str} (hnodes : nodes.Nodup) (u v : Fin nodes.length)
    (edges : List ObservedEdge) :
    physicalEdges (φ := φ) nodes ((nodes[u], nodes[v]) :: edges) =
      if u = v then physicalEdges nodes edges else (u, v, 1.0) :: physicalEdges nodes edges := by
  simp only [physicalEdges, List.filterMap_cons, finIdxOf?_getElem hnodes, Option.bind_eq_bind,
    Option.bind_some]
  by_cases huv : u = v <;> simp [huv]

/-- The entries of the matrix of the edges, from whatever matrix they are added to. -/
theorem foldl_physicalEdges {nodes : List Str} (hnodes : nodes.Nodup) {edges : List ObservedEdge}
    (hedges : ∀ edge ∈ edges, edge.1 ∈ nodes ∧ edge.2 ∈ nodes) (l : Rows nodes.length φ)
    (i j : Fin nodes.length) :
    (physicalEdges nodes edges).foldl (fun l edge => addWeight l edge.1 edge.2.1 edge.2.2) l i j =
      if i = j then (· + (1.0 : φ))^[degree edges nodes[i]] (l i j)
      else (· - (1.0 : φ))^[together edges nodes[i] nodes[j]] (l i j) := by
  induction edges generalizing l with
  | nil => simp [physicalEdges, degree, together]
  | cons edge edges ih =>
    obtain ⟨src, dst⟩ := edge
    have hindex : ∀ x ∈ nodes, ∃ u : Fin nodes.length, nodes[u] = x := by
      intro x hx
      obtain ⟨u, hu, h⟩ := List.getElem_of_mem hx
      exact ⟨⟨u, hu⟩, h⟩
    obtain ⟨u, rfl⟩ := hindex src (hedges _ (.head _)).1
    obtain ⟨v, rfl⟩ := hindex dst (hedges _ (.head _)).2
    have hrest := ih fun e he => hedges e (.tail _ he)
    rw [physicalEdges_cons hnodes]
    simp only [degree, together, List.countP_cons, Prod.mk.injEq, getElem_inj hnodes, ne_eq,
      decide_eq_true_eq] at hrest ⊢
    by_cases huv : u = v
    · -- a loop counts neither as a degree nor between two nodes
      have hloop : ∀ i j : Fin nodes.length, i ≠ j → ¬ ((u = i ∧ v = j) ∨ (u = j ∧ v = i)) := by
        rintro i j hij (⟨hi, hj⟩ | ⟨hj, hi⟩)
        · exact hij (hi.symm.trans (huv.trans hj))
        · exact hij (hi.symm.trans (huv.symm.trans hj))
      rw [if_pos huv, hrest]
      by_cases hij : i = j
      · simp [hij, huv]
      · simp [hij, hloop i j hij]
    · rw [if_neg huv, List.foldl_cons, hrest]
      by_cases hij : i = j
      · subst hij
        rw [if_pos rfl, if_pos rfl, addWeight_self _ huv]
        by_cases hend : i = u ∨ i = v
        · rw [if_pos hend, if_pos ⟨huv, hend⟩, Function.iterate_succ_apply]
        · rw [if_neg hend, if_neg fun h => hend h.2, Nat.add_zero]
      · rw [if_neg hij, if_neg hij, addWeight_ne _ huv _ hij]
        have hswap : ((i = u ∧ j = v) ∨ (i = v ∧ j = u)) ↔
            ((u = i ∧ v = j) ∨ (u = j ∧ v = i)) := by
          simp only [eq_comm, and_comm]
        rw [if_congr hswap rfl rfl]
        split
        · rw [Function.iterate_succ_apply]
        · rw [Nat.add_zero]

/-- The Laplacian of the edges on the numbered nodes. -/
def laplacianOf (reg : AnyRegularizer φ) (nodes : List Str) (edges : List ObservedEdge) :
    Rows nodes.length φ :=
  ((resize reg nodes.length).updatePhysicalEdges (physicalEdges nodes edges)).buildPhysicalOnly

theorem tickLaplacian_eq (reg : AnyRegularizer φ) {nodes : List Str} {edges : List ObservedEdge}
    (hnodes : nodeSet edges = nodes) (htwo : 2 ≤ nodes.length) :
    tickLaplacian reg edges = some (toLists (laplacianOf reg nodes edges)) := by
  subst hnodes
  rw [tickLaplacian, tickedRegularizer, if_pos htwo]
  rfl

omit [FloatFns φ] in
theorem toLists_inj {n : Nat} {l l' : Rows n φ} : toLists l = toLists l' ↔ l = l' := by
  constructor
  · intro h
    funext i
    exact List.ofFn_injective (congrFun (List.ofFn_injective h) i)
  · intro h
    rw [h]

/-- What the Laplacian of observed edges is made of: how often each entity is observed, and each
pair of entities. -/
theorem laplacianOf_apply (reg : AnyRegularizer φ) {nodes : List Str} (hnodes : nodes.Nodup)
    {edges : List ObservedEdge} (hedges : ∀ edge ∈ edges, edge.1 ∈ nodes ∧ edge.2 ∈ nodes)
    (i j : Fin nodes.length) :
    laplacianOf reg nodes edges i j =
      if i = j then upBy φ (degree edges nodes[i]) + (resize reg nodes.length).epsilon
      else downBy φ (together edges nodes[i] nodes[j]) := by
  have hentry := foldl_physicalEdges (φ := φ) hnodes hedges (fun _ _ => 0.0) i j
  rw [laplacianOf, Regularizer.buildPhysicalOnly, addDiagonal]
  change (if i = j then physicalRows (physicalEdges nodes edges) i j + _ else
    physicalRows (physicalEdges nodes edges) i j) = _
  rw [physicalRows, hentry]
  split
  · rfl
  · rfl

theorem countP_repeat {α : Type} (p : α → Bool) (xs : List α) (x : α) (rest : List α) :
    (xs ++ x :: x :: rest).countP p = (xs ++ x :: rest).countP p + if p x then 1 else 0 := by
  simp only [List.countP_append, List.countP_cons]
  omega

theorem together_comm (edges : List ObservedEdge) (x y : Str) :
    together edges x y = together edges y x := by
  simp only [together, or_comm]

theorem two_le_length {nodes : List Str} {x y : Str} (hx : x ∈ nodes) (hy : y ∈ nodes)
    (hxy : x ≠ y) : 2 ≤ nodes.length := by
  match nodes with
  | [] => cases hx
  | [z] => exact absurd ((List.mem_singleton.mp hx).trans (List.mem_singleton.mp hy).symm) hxy
  | _ :: _ :: _ => exact Nat.le_add_left 2 _

/-- One more observation of an edge changes neither what is taken from the entry of its ends nor
what is added to theirs on the diagonal. -/
def Settled (ε : φ) (edges : List ObservedEdge) (edge : ObservedEdge) : Prop :=
  downBy φ (together edges edge.1 edge.2 + 1) = downBy φ (together edges edge.1 edge.2) ∧
    ∀ x, x = edge.1 ∨ x = edge.2 → upBy φ (degree edges x + 1) + ε = upBy φ (degree edges x) + ε

theorem degree_repeat (edges : List ObservedEdge) {edge : ObservedEdge} (hedge : edge.1 ≠ edge.2)
    (rest : List ObservedEdge) (x : Str) :
    degree (edges ++ edge :: edge :: rest) x =
      degree (edges ++ edge :: rest) x + if x = edge.1 ∨ x = edge.2 then 1 else 0 := by
  rw [degree, countP_repeat]
  simp [degree, hedge]

theorem together_repeat (edges : List ObservedEdge) (edge : ObservedEdge)
    (rest : List ObservedEdge) (x y : Str) :
    together (edges ++ edge :: edge :: rest) x y =
      together (edges ++ edge :: rest) x y + if edge = (x, y) ∨ edge = (y, x) then 1 else 0 := by
  rw [together, countP_repeat]
  simp [together]

theorem laplacianOf_repeat_iff (reg : AnyRegularizer φ) {nodes : List Str} (hnodes : nodes.Nodup)
    {edges : List ObservedEdge} {edge : ObservedEdge} (hedge : edge.1 ≠ edge.2)
    {rest : List ObservedEdge}
    (hmem : ∀ e ∈ edges ++ edge :: rest, e.1 ∈ nodes ∧ e.2 ∈ nodes) :
    laplacianOf reg nodes (edges ++ edge :: edge :: rest) =
        laplacianOf reg nodes (edges ++ edge :: rest) ↔
      Settled (resize reg nodes.length).epsilon (edges ++ edge :: rest) edge := by
  have hmem' : ∀ e ∈ edges ++ edge :: edge :: rest, e.1 ∈ nodes ∧ e.2 ∈ nodes := by
    intro e he
    refine hmem e ?_
    simpa using he
  have hends := hmem edge (List.mem_append_right _ (.head _))
  constructor
  · intro h
    obtain ⟨u, hu, hfirst⟩ := List.getElem_of_mem hends.1
    obtain ⟨v, hv, hsecond⟩ := List.getElem_of_mem hends.2
    have huv : (⟨u, hu⟩ : Fin nodes.length) ≠ ⟨v, hv⟩ := by
      intro heq
      refine hedge ?_
      rw [← hfirst, ← hsecond]
      exact congrArg (fun i : Fin nodes.length => nodes[i]) heq
    have hentry : ∀ i j, laplacianOf reg nodes (edges ++ edge :: edge :: rest) i j =
        laplacianOf reg nodes (edges ++ edge :: rest) i j := fun i j => by rw [h]
    simp only [laplacianOf_apply reg hnodes hmem', laplacianOf_apply reg hnodes hmem,
      degree_repeat edges hedge, together_repeat] at hentry
    refine ⟨?_, ?_⟩
    · have hpair := hentry ⟨u, hu⟩ ⟨v, hv⟩
      simpa [huv, hfirst, hsecond] using hpair
    · rintro x (rfl | rfl)
      · have hdiagonal := hentry ⟨u, hu⟩ ⟨u, hu⟩
        simpa [hfirst] using hdiagonal
      · have hdiagonal := hentry ⟨v, hv⟩ ⟨v, hv⟩
        simpa [hsecond] using hdiagonal
  · rintro ⟨hpair, hdiagonal⟩
    funext i j
    rw [laplacianOf_apply reg hnodes hmem', laplacianOf_apply reg hnodes hmem]
    split
    · rw [degree_repeat edges hedge]
      split
      · rename_i hend
        exact hdiagonal _ hend
      · rfl
    · rw [together_repeat]
      split
      · rename_i hsame
        rcases hsame with rfl | rfl
        · exact hpair
        · rw [together_comm]
          exact hpair
      · rfl

/-- An edge that is observed twice in a row makes no difference to the Laplacian of a tick exactly
if the sums do not change by one more observation. -/
theorem tickLaplacian_repeat_iff (reg : AnyRegularizer φ) (edges : List ObservedEdge)
    {edge : ObservedEdge} (hedge : edge.1 ≠ edge.2) (rest : List ObservedEdge) :
    tickLaplacian reg (edges ++ edge :: edge :: rest) = tickLaplacian reg (edges ++ edge :: rest) ↔
      Settled (resize reg (nodeSet (edges ++ edge :: rest)).length).epsilon (edges ++ edge :: rest)
        edge := by
  have hmem : ∀ e ∈ edges ++ edge :: rest,
      e.1 ∈ nodeSet (edges ++ edge :: rest) ∧ e.2 ∈ nodeSet (edges ++ edge :: rest) := fun e he =>
    ⟨mem_nodeSet.mpr ⟨e, he, .inl rfl⟩, mem_nodeSet.mpr ⟨e, he, .inr rfl⟩⟩
  have hends := hmem edge (List.mem_append_right _ (.head _))
  have htwo := two_le_length hends.1 hends.2 hedge
  rw [tickLaplacian_eq reg (nodeSet_repeat edges edge rest) htwo, tickLaplacian_eq reg rfl htwo,
    Option.some_inj, toLists_inj, laplacianOf_repeat_iff reg (nodup_nodeSet _) hedge hmem]

/-- In exact arithmetic every observation changes the Laplacian. -/
theorem not_settled (ε : ℝ) (edges : List ObservedEdge) (edge : ObservedEdge) :
    ¬ Settled ε edges edge := by
  rintro ⟨hpair, -⟩
  rw [downBy, downBy, Function.iterate_succ_apply'] at hpair
  norm_num at hpair

end ActiveDefense.Spectral
