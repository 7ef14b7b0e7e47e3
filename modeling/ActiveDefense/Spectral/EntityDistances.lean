import ActiveDefense.Lib.Alignment
import ActiveDefense.Lib.Lists
import ActiveDefense.Spectral.Homology

/-!
# Distances of entities

The engine tells how far apart two entities are, by the commute time and by the Fiedler vector, and
lists the entities that are nearest to a seed. Over the real numbers both distances are those of
points, so there are no detours that shorten them (`pairDistances_detour`), and the list is of the
nearest entities: the hub is not among them, and no entity that is left out is nearer than one that
is listed (`blastRadius_nearest`).
-/

namespace ActiveDefense.Spectral

variable {φ : Type} [FloatFns φ] [Neg φ]

/-! ## The distances -/

/-- `SpectralEmbedding::fiedler_distance`. -/
def SpectralEmbedding.fiedlerDistance (e : SpectralEmbedding φ) (u v : Nat) :
    Except DistanceError φ :=
  if e.numDims < 2 then .error (.insufficientNodesForEmbedding e.numDims)
  else do
    e.validateNode u
    e.validateNode v
    let firstNontrivial := (e.eigenvalues.findIdx? fun ev => decide (1e-10 < ev)).getD 1
    return absF64 (e.entry u firstNontrivial - e.entry v firstNontrivial)

/-- `unwrap_or(0.0)` of a distance. -/
def distanceOrZero (d : Except DistanceError φ) : φ := d.toOption.getD 0.0

namespace SpectralSecurityGraph

/-- `SpectralSecurityGraph::pair_distances`. -/
def pairDistances (sg : SpectralSecurityGraph (SpectralEmbedding φ)) (src dst : Str) : φ × φ :=
  match sg.entityToNode src, sg.entityToNode dst with
  | some u, some v =>
    (distanceOrZero (sg.embedding.geometricDistance u v),
      distanceOrZero (sg.embedding.fiedlerDistance u v))
  | _, _ => (0.0, 0.0)

end SpectralSecurityGraph

/-- `SpectralBlastNode`. -/
structure SpectralBlastNode (φ : Type) where
  entity : Str
  commuteTimeDistance : φ
  fiedlerDistance : φ

namespace SpectralSecurityGraph

/-- The `ranked` of `spectral_blast_radius`, before it is sorted. -/
def unranked (sg : SpectralSecurityGraph (SpectralEmbedding φ)) (seedIdx : Nat) :
    List (SpectralBlastNode φ) :=
  (sg.entityIndex.zipIdx.filter fun p => p.2 ≠ seedIdx).filterMap fun p => do
    let ct ← (sg.embedding.geometricDistance seedIdx p.2).toOption
    let fd ← (sg.embedding.fiedlerDistance seedIdx p.2).toOption
    return { entity := p.1, commuteTimeDistance := ct, fiedlerDistance := fd }

/-- `SpectralSecurityGraph::spectral_blast_radius`. -/
def spectralBlastRadius (sg : SpectralSecurityGraph (SpectralEmbedding φ)) (seed : Str)
    (maxNodes : Nat) : List (SpectralBlastNode φ) :=
  match sg.entityToNode seed with
  | none => []
  | some seedIdx =>
    let ranked := (sg.unranked seedIdx).mergeSort fun a b =>
      !decide (b.commuteTimeDistance < a.commuteTimeDistance)
    ranked.take maxNodes

end SpectralSecurityGraph

/-! ## Distances of points -/

namespace SpectralEmbedding

variable (e : SpectralEmbedding ℝ)

/-- The dimensions that count for the commute time. -/
noncomputable def commuteDims : List Nat :=
  (List.range' 1 (e.numDims - 1)).filter fun k => 1e-10 ≤ e.eigenvalues.getD k 0

/-- The coordinate of a node in such a dimension. -/
noncomputable def coordinate (k u : Nat) : ℝ := e.entry u k / √(e.eigenvalues.getD k 0)

/-- The distance of two nodes in these coordinates. -/
noncomputable def commute (u v : Nat) : ℝ :=
  √(e.commuteDims.map fun k => (e.coordinate k u - e.coordinate k v) ^ 2).sum

/-- The distance of two nodes in the first dimension that is not trivial. -/
noncomputable def fiedler (u v : Nat) : ℝ :=
  |e.entry u ((e.eigenvalues.findIdx? fun ev => decide (1e-10 < ev)).getD 1) -
    e.entry v ((e.eigenvalues.findIdx? fun ev => decide (1e-10 < ev)).getD 1)|

variable {e} {u v : Nat}

theorem validateNode_of_lt (h : u < e.numNodes) : e.validateNode u = .ok () :=
  if_neg (Nat.not_le_of_lt h)

theorem geometricDistance_eq (hdims : 2 ≤ e.numDims) (hu : u < e.numNodes) (hv : v < e.numNodes) :
    e.geometricDistance u v = .ok (e.commute u v) := by
  rw [geometricDistance, if_neg (Nat.not_lt_of_le hdims), validateNode_of_lt hu,
    validateNode_of_lt hv]
  refine congrArg Except.ok ?_
  rw [sqrt_eq, sumOf_eq, commute, commuteDims]
  refine congrArg Real.sqrt (congrArg List.sum ?_)
  induction List.range' 1 (e.numDims - 1) with
  | nil => rfl
  | cons k ks ih =>
    rw [List.filterMap_cons, List.filter_cons, ih]
    simp only [zero_lit, decide_eq_true_eq]
    by_cases hk : e.eigenvalues.getD k 0 < 1e-10
    · rw [if_pos hk, if_neg (not_le_of_gt hk)]
    · have hpos : (0 : ℝ) ≤ e.eigenvalues.getD k 0 := le_trans (by norm_num) (not_lt.mp hk)
      rw [if_neg hk, if_pos (not_lt.mp hk), List.map_cons, coordinate, coordinate, ← sub_div,
        div_pow, Real.sq_sqrt hpos, sq]

theorem fiedlerDistance_eq (hdims : 2 ≤ e.numDims) (hu : u < e.numNodes) (hv : v < e.numNodes) :
    e.fiedlerDistance u v = .ok (e.fiedler u v) := by
  rw [fiedlerDistance, if_neg (Nat.not_lt_of_le hdims), validateNode_of_lt hu,
    validateNode_of_lt hv]
  exact congrArg Except.ok (absF64_eq _)

end SpectralEmbedding

/-- What the distances of points have in common. -/
structure IsDistance (d : Nat → Nat → ℝ) : Prop where
  self : ∀ u, d u u = 0
  comm : ∀ u v, d u v = d v u
  nonneg : ∀ u v, 0 ≤ d u v
  triangle : ∀ u v w, d u w ≤ d u v + d v w

namespace SpectralEmbedding

theorem isDistance_commute (e : SpectralEmbedding ℝ) : IsDistance e.commute where
  self u := by simp [commute]
  comm u v := by simp only [commute, sub_sq_comm]
  nonneg u v := Real.sqrt_nonneg _
  triangle u v w := by
    have hsum := sqrt_sum_sq_add_le e.commuteDims (fun k => e.coordinate k u - e.coordinate k v)
      fun k => e.coordinate k v - e.coordinate k w
    simp only [sub_add_sub_cancel] at hsum
    exact hsum

theorem isDistance_fiedler (e : SpectralEmbedding ℝ) : IsDistance e.fiedler where
  self u := by simp [fiedler]
  comm u v := abs_sub_comm _ _
  nonneg u v := abs_nonneg _
  triangle u v w := abs_sub_le _ _ _

/-- Of fewer than two dimensions no distance is told. -/
theorem exists_isDistance (e : SpectralEmbedding ℝ) :
    ∃ ct fd, IsDistance ct ∧ IsDistance fd ∧ ∀ u < e.numNodes, ∀ v < e.numNodes,
      distanceOrZero (e.geometricDistance u v) = ct u v ∧
        distanceOrZero (e.fiedlerDistance u v) = fd u v := by
  rcases Nat.lt_or_ge e.numDims 2 with hfew | hdims
  · have hnone : IsDistance fun _ _ => 0 :=
      ⟨fun _ => rfl, fun _ _ => rfl, fun _ _ => le_refl 0, fun _ _ _ => (add_zero 0).ge⟩
    refine ⟨_, _, hnone, hnone, fun u _ v _ => ?_⟩
    rw [geometricDistance, fiedlerDistance, if_pos hfew, if_pos hfew]
    exact ⟨zero_lit, zero_lit⟩
  · refine ⟨_, _, isDistance_commute e, isDistance_fiedler e, fun u hu v hv => ?_⟩
    rw [geometricDistance_eq hdims hu hv, fiedlerDistance_eq hdims hu hv]
    exact ⟨rfl, rfl⟩

end SpectralEmbedding

/-! ## Distances of entities -/

namespace SpectralSecurityGraph

open SpectralEmbedding

section
variable {β : Type} {f : Graph → Option β} {edges : List ObservedEdge}
  {sg : SpectralSecurityGraph β}

/-- The entities of a graph that is built are the ends of the observed edges, and each is a node. -/
theorem entities_of_build (h : build f edges = some sg) :
    sg.entityIndex = nodeSet edges ∧ f sg.graph = some sg.embedding ∧
      sg.entityIndex.length ≤ sg.graph.numNodes := by
  rw [build] at h
  simp only [run_internEdge] at h
  split at h
  · cases h
  · next graph hubInjected hbuilt =>
    split at h
    · cases h
    · next embedding hembed =>
      cases h
      refine ⟨rfl, hembed, ?_⟩
      have hnum := (numNodes_of_build hbuilt).2
      change (nodeSet edges).length ≤ graph.numNodes
      split at hnum <;> omega

theorem entityToNode_of_mem {x : Str} (hx : x ∈ sg.entityIndex) :
    sg.entityToNode x = some (sg.entityIndex.idxOf x) := by
  have hlt : sg.entityIndex.idxOf x < sg.entityIndex.length := List.idxOf_lt_length_iff.mpr hx
  refine List.idxOf?_eq_some_iff.mpr ⟨hlt, List.getElem_idxOf hlt, fun j hj => ?_⟩
  simpa using List.not_of_lt_findIdx hj

end

variable {edges : List ObservedEdge} {cfg : JacobiConfig ℝ}
  {sg : SpectralSecurityGraph (SpectralEmbedding ℝ)}

/-- Every entity of a graph that is built has a row. -/
theorem lt_numNodes (h : build (fun g => (embed g cfg).toOption) edges = some sg)
    {x : Str} {u : Nat} (hu : sg.entityToNode x = some u) : u < sg.embedding.numNodes := by
  obtain ⟨-, hembed, hlen⟩ := entities_of_build h
  have hlt : u < sg.entityIndex.length := (List.idxOf?_eq_some_iff.mp hu).1
  cases he : embed sg.graph cfg with
  | error err =>
    rw [he] at hembed
    cases hembed
  | ok e =>
    rw [he] at hembed
    obtain ⟨-, w, rfl, -⟩ := of_embed he
    rw [← Option.some.inj hembed]
    exact hlt.trans_le hlen

/-- The distances of entities are those of points: an entity is at no distance from itself, and a
detour by a third one is not shorter. -/
theorem pairDistances_detour (h : build (fun g => (embed g cfg).toOption) edges = some sg)
    (x z : Str) {y : Str} (hy : y ∈ nodeSet edges) :
    sg.pairDistances x x = (0, 0) ∧ sg.pairDistances x z = sg.pairDistances z x ∧
    0 ≤ (sg.pairDistances x z).1 ∧ 0 ≤ (sg.pairDistances x z).2 ∧
    (sg.pairDistances x z).1 ≤ (sg.pairDistances x y).1 + (sg.pairDistances y z).1 ∧
    (sg.pairDistances x z).2 ≤ (sg.pairDistances x y).2 + (sg.pairDistances y z).2 := by
  obtain ⟨ct, fd, hct, hfd, heq⟩ := sg.embedding.exists_isDistance
  have hknown : ∀ {a b : Str} {u v : Nat}, sg.entityToNode a = some u →
      sg.entityToNode b = some v → sg.pairDistances a b = (ct u v, fd u v) := by
    intro a b u v hu hv
    obtain ⟨hgeometric, hfiedler⟩ := heq u (lt_numNodes h hu) v (lt_numNodes h hv)
    rw [pairDistances, hu, hv]
    exact Prod.ext hgeometric hfiedler
  have hleft : ∀ {a : Str} (b : Str), sg.entityToNode a = none →
      sg.pairDistances a b = (0, 0) := by
    intro a b ha
    simp only [pairDistances, ha, zero_lit]
  have hright : ∀ {a : Str} (b : Str), sg.entityToNode a = none →
      sg.pairDistances b a = (0, 0) := by
    intro a b ha
    cases hb : sg.entityToNode b <;> simp only [pairDistances, ha, hb, zero_lit]
  obtain ⟨v, hv⟩ : ∃ v, sg.entityToNode y = some v :=
    ⟨_, entityToNode_of_mem ((entities_of_build h).1 ▸ hy)⟩
  cases hx : sg.entityToNode x with
  | none =>
    cases hz : sg.entityToNode z with
    | none => simp [hleft _ hx, hleft _ hz, hright _ hz]
    | some w => simp [hleft _ hx, hright _ hx, hknown hv hz, hct.nonneg, hfd.nonneg]
  | some u =>
    cases hz : sg.entityToNode z with
    | none =>
      simp [hleft _ hz, hright _ hz, hknown hx hx, hknown hx hv, hct.self, hfd.self, hct.nonneg,
        hfd.nonneg]
    | some w =>
      rw [hknown hx hx, hknown hx hz, hknown hz hx, hknown hx hv, hknown hv hz, hct.self, hfd.self,
        hct.comm u w, hfd.comm u w]
      refine ⟨rfl, rfl, hct.nonneg _ _, hfd.nonneg _ _, ?_, ?_⟩
      · rw [hct.comm w u]
        exact hct.triangle u v w
      · rw [hfd.comm w u]
        exact hfd.triangle u v w

theorem exists_build_star : ∃ sg : SpectralSecurityGraph (SpectralEmbedding ℝ),
    build (fun g => (embed g JacobiConfig.standard).toOption)
      [("a".toList, "a".toList), ("b".toList, "b".toList)] = some sg := by
  obtain ⟨sg, -, h, -⟩ := exists_star
  exact ⟨sg, h⟩

theorem pairDistances_detour_star : ∃ sg : SpectralSecurityGraph (SpectralEmbedding ℝ),
    build (fun g => (embed g JacobiConfig.standard).toOption)
      [("a".toList, "a".toList), ("b".toList, "b".toList)] = some sg ∧
    sg.pairDistances "a".toList "b".toList = sg.pairDistances "b".toList "a".toList := by
  obtain ⟨sg, h⟩ := exists_build_star
  exact ⟨sg, h, (pairDistances_detour h _ _ (y := "a".toList) (by decide)).2.1⟩

/-! ## The nearest entities -/

/-- An entity, as it is listed. -/
noncomputable def blastNode (sg : SpectralSecurityGraph (SpectralEmbedding ℝ)) (seed x : Str) :
    SpectralBlastNode ℝ :=
  ⟨x, (sg.pairDistances seed x).1, (sg.pairDistances seed x).2⟩

theorem zipIdx_eq {l : List Str} (h : l.Nodup) : l.zipIdx = l.map fun x => (x, l.idxOf x) := by
  refine List.ext_getElem (by simp) fun i hi _ => ?_
  rw [List.length_zipIdx] at hi
  simp [h.idxOf_getElem i hi]

/-- The entities before they are sorted: all of them but the seed, with their distances. -/
theorem unranked_eq (h : build (fun g => (embed g cfg).toOption) edges = some sg)
    (hdims : 2 ≤ sg.embedding.numDims) {seed : Str} (hseed : seed ∈ nodeSet edges) :
    sg.unranked (sg.entityIndex.idxOf seed) =
      ((nodeSet edges).filter (· ≠ seed)).map (sg.blastNode seed) := by
  obtain ⟨hentities, -, -⟩ := entities_of_build h
  have hnodup : sg.entityIndex.Nodup := hentities ▸ nodup_nodeSet edges
  rw [← hentities] at hseed ⊢
  have hother : (sg.entityIndex.filter fun x => sg.entityIndex.idxOf x ≠ sg.entityIndex.idxOf seed)
      = sg.entityIndex.filter (· ≠ seed) := by
    refine List.filter_congr fun x hx => ?_
    rw [decide_eq_decide]
    exact not_congr (List.idxOf_inj hx)
  rw [unranked, zipIdx_eq hnodup, List.filter_map, List.filterMap_map, ← hother]
  refine Eq.trans (List.filterMap_congr (g := some ∘ sg.blastNode seed) fun x hx => ?_)
    (congrFun List.filterMap_eq_map _)
  have hx : x ∈ sg.entityIndex := (List.mem_filter.mp hx).1
  have hnode := entityToNode_of_mem hx
  have hstart := entityToNode_of_mem hseed
  simp only [Function.comp_apply, blastNode, pairDistances, hnode, hstart,
    geometricDistance_eq hdims (lt_numNodes h hstart) (lt_numNodes h hnode),
    fiedlerDistance_eq hdims (lt_numNodes h hstart) (lt_numNodes h hnode)]
  rfl

/-- The embedding of a graph that is built has two dimensions at least. -/
theorem two_le_numDims (h : build (fun g => (embed g cfg).toOption) edges = some sg)
    (hdims : cfg.dimensions = none) : 2 ≤ sg.embedding.numDims := by
  obtain ⟨-, hembed, -⟩ := entities_of_build h
  cases he : embed sg.graph cfg with
  | error err =>
    rw [he] at hembed
    cases hembed
  | ok e =>
    rw [he] at hembed
    obtain ⟨htwo, -, hnum, -⟩ := exists_orthogonal he hdims
    rw [← Option.some.inj hembed, hnum]
    exact htwo

/-- The blast radius of an entity is the list of those that are nearest to it: it names ends of
observed edges other than the seed, each once and with its distances, the nearest first, and as many
as there are and may be; an entity that is not listed is no nearer than one that is. -/
theorem blastRadius_nearest (h : build (fun g => (embed g cfg).toOption) edges = some sg)
    (hdims : cfg.dimensions = none) {seed : Str} (hseed : seed ∈ nodeSet edges) (maxNodes : Nat) :
    let near := sg.spectralBlastRadius seed maxNodes
    near.length = min maxNodes ((nodeSet edges).length - 1) ∧
    near.Pairwise (fun a b => a.commuteTimeDistance ≤ b.commuteTimeDistance) ∧
    (near.map (·.entity)).Nodup ∧
    (∀ node ∈ near, node.entity ∈ nodeSet edges ∧ node.entity ≠ seed ∧
      (node.commuteTimeDistance, node.fiedlerDistance) = sg.pairDistances seed node.entity) ∧
    ∀ x ∈ nodeSet edges, x ≠ seed → (∃ node ∈ near, node.entity = x) ∨
      ∀ node ∈ near, node.commuteTimeDistance ≤ (sg.pairDistances seed x).1 := by
  intro near
  obtain ⟨hentities, -, -⟩ := entities_of_build h
  have hnode := entityToNode_of_mem (hentities ▸ hseed : seed ∈ sg.entityIndex)
  have hnear : near = (((((nodeSet edges).filter (· ≠ seed)).map (sg.blastNode seed)).mergeSort
      fun a b => !decide (b.commuteTimeDistance < a.commuteTimeDistance)).take maxNodes) := by
    rw [← unranked_eq h (two_le_numDims h hdims) hseed]
    simp only [near, spectralBlastRadius, hnode]
  obtain ⟨hlength, hsorted, hsub, hrest⟩ := take_mergeSort SpectralBlastNode.commuteTimeDistance
    (((nodeSet edges).filter (· ≠ seed)).map (sg.blastNode seed)) maxNodes
  rw [← hnear] at hlength hsorted hsub hrest
  have hcount : ((nodeSet edges).filter (· ≠ seed)).length = (nodeSet edges).length - 1 := by
    rw [← List.length_erase_of_mem hseed, (nodup_nodeSet edges).erase_eq_filter]
    refine congrArg List.length (List.filter_congr fun x _ => ?_)
    rw [Bool.eq_iff_iff]
    simp
  have hentity : (((nodeSet edges).filter (· ≠ seed)).map (sg.blastNode seed)).map (·.entity) =
      (nodeSet edges).filter (· ≠ seed) := by
    rw [List.map_map]
    exact List.map_id _
  refine ⟨?_, hsorted, ?_, fun node hmem => ?_, fun x hx hne => ?_⟩
  · rw [hlength, List.length_map, hcount]
  · obtain ⟨l, hperm, hsublist⟩ := hsub
    refine (hperm.map _).nodup_iff.mp ((hsublist.map _).nodup ?_)
    rw [hentity]
    exact (nodup_nodeSet edges).filter _
  · obtain ⟨x, hx, rfl⟩ := List.mem_map.mp (hsub.subset hmem)
    obtain ⟨hx, hne⟩ := List.mem_filter.mp hx
    exact ⟨hx, of_decide_eq_true hne, rfl⟩
  · have hmem : sg.blastNode seed x ∈
        ((nodeSet edges).filter (· ≠ seed)).map (sg.blastNode seed) :=
      List.mem_map_of_mem (List.mem_filter.mpr ⟨hx, decide_eq_true hne⟩)
    exact (hrest _ hmem).imp (fun hnear => ⟨_, hnear, rfl⟩) id

/-- Two entities that are not joined have a distance by way of the hub, which is not listed. -/
theorem blastRadius_nearest_star : ∃ sg : SpectralSecurityGraph (SpectralEmbedding ℝ),
    build (fun g => (embed g JacobiConfig.standard).toOption)
      [("a".toList, "a".toList), ("b".toList, "b".toList)] = some sg ∧
    (sg.spectralBlastRadius "a".toList 10).length = 1 := by
  obtain ⟨sg, h⟩ := exists_build_star
  have hseed : "a".toList ∈ nodeSet [("a".toList, "a".toList), ("b".toList, "b".toList)] := by
    decide
  exact ⟨sg, h, (blastRadius_nearest h rfl hseed 10).1⟩

end SpectralSecurityGraph

end ActiveDefense.Spectral
