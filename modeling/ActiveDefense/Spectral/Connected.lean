import ActiveDefense.Spectral.Distances

/-!
# The connected graph of a set of edges

`is_connected` asks whether a search from the node 0 labels every node. Where it does not,
`build_connected_graph` adds a node, the hub, and joins it with the node 0 and with every node that
the search did not label. So the result is connected (`connected_augmented`), and among the nodes of
the edges it has the same edges.
-/

namespace ActiveDefense.Spectral

namespace Graph

/-- `Graph::is_connected`. -/
def isConnected (g : Graph) : Bool :=
  if g.numNodes ≤ 1 then true
  else
    match g.bfsDistances 0 with
    | .ok dists => dists.all (·.isSome)
    | .error _ => false

end Graph

open ActiveDefense.Spectral.Graph

/-- The edges of the hub: from the node 0 and from every node without a label. -/
def hubEdges (hub : Nat) (dists : List (Option Nat)) : List (Nat × Nat) :=
  (0, hub) :: (dists.zipIdx.filter fun entry => entry.1.isNone).map fun entry => (entry.2, hub)

/-- `build_connected_graph`. -/
def buildConnectedGraph (n : Nat) (rawEdges : List (Nat × Nat)) :
    Except GraphError (Graph × Bool) :=
  match fromEdges n rawEdges with
  | .error e => .error e
  | .ok phys =>
    if phys.isConnected then .ok (phys, false)
    else
      match phys.bfsDistances 0 with
      | .error e => .error e
      | .ok bfs0 =>
        match fromEdges (n + 1) (rawEdges ++ hubEdges n bfs0) with
        | .error e => .error e
        | .ok aug => .ok (aug, true)

variable {g : Graph} {n : Nat} {edges : List (Nat × Nat)}

/-- The search from the node 0 labels what can be reached from it. -/
theorem exists_bfs (h : g.Valid) :
    ∃ dists, g.bfsDistances 0 = .ok dists ∧ dists.length = g.numNodes ∧
      ∀ v : Fin g.numNodes, labelOf dists v = none ↔ ¬ g.simple.Reachable ⟨0, h.pos⟩ v := by
  refine ⟨_, by rw [bfsDistances, validateNode, if_neg (Nat.not_le_of_lt h.pos)], ?_, fun v => ?_⟩
  · rw [length_bfsLoop, List.length_set, List.length_replicate]
  · rw [← SimpleGraph.edist_ne_top_iff_reachable, not_not]
    exact labelOf_bfs_eq_none_iff h (u := ⟨0, h.pos⟩)

/-- A graph in which everything can be reached from one node is connected. -/
theorem connected_of_reachable {V : Type} {G : SimpleGraph V} (root : V)
    (h : ∀ v, G.Reachable root v) : G.Connected where
  preconnected u v := (h u).symm.trans (h v)
  nonempty := ⟨root⟩

theorem isConnected_iff (h : g.Valid) : g.isConnected = true ↔ g.simple.Connected := by
  rw [isConnected]
  split
  · rename_i hone
    refine ⟨fun _ => connected_of_reachable ⟨0, h.pos⟩ fun v => ?_, fun _ => rfl⟩
    obtain rfl : v = ⟨0, h.pos⟩ := Fin.ext (by omega)
    exact .rfl
  · obtain ⟨dists, hdists, hlen, hlabel⟩ := exists_bfs h
    rw [hdists]
    dsimp only
    rw [List.all_eq_true]
    constructor
    · intro hall
      refine connected_of_reachable ⟨0, h.pos⟩ fun v => ?_
      have hlt : v.val < dists.length := hlen.symm ▸ v.isLt
      have hsome := hall _ (List.getElem_mem hlt)
      by_contra hnot
      have hnone := (hlabel v).mpr hnot
      rw [labelOf, List.getD_eq_getElem?_getD, List.getElem?_eq_getElem hlt,
        Option.getD_some] at hnone
      rw [hnone] at hsome
      cases hsome
    · intro hconn label hmem
      obtain ⟨i, hi, rfl⟩ := List.getElem_of_mem hmem
      by_contra hnone
      rw [Option.not_isSome_iff_eq_none] at hnone
      have hi' : i < g.numNodes := hlen ▸ hi
      refine (hlabel ⟨i, hi'⟩).mp ?_ (hconn.preconnected _ _)
      rw [labelOf, List.getD_eq_getElem?_getD, List.getElem?_eq_getElem hi, hnone]
      rfl

theorem mem_hubEdges {dists : List (Option Nat)} {hub u v : Nat} :
    (u, v) ∈ hubEdges hub dists ↔ v = hub ∧ (u = 0 ∨ dists[u]? = some none) := by
  simp only [hubEdges, List.mem_cons, List.mem_map, List.mem_filter, Prod.mk.injEq]
  constructor
  · rintro (⟨rfl, rfl⟩ | ⟨⟨label, i⟩, ⟨hmem, hnone⟩, rfl, rfl⟩)
    · exact ⟨rfl, .inl rfl⟩
    · rw [List.mem_zipIdx_iff_getElem?] at hmem
      rw [hmem, Option.isNone_iff_eq_none.mp hnone]
      exact ⟨rfl, .inr rfl⟩
  · rintro ⟨rfl, rfl | hnone⟩
    · exact .inl ⟨rfl, rfl⟩
    · exact .inr ⟨(none, u), ⟨List.mem_zipIdx_iff_getElem?.mpr hnone, rfl⟩, rfl, rfl⟩

/-- A graph with one more node, next to the node 0 and to every node that cannot be reached from
it, is connected. -/
theorem connected_augmented {phys aug : Graph} (hphys : phys.Valid) (haug : aug.Valid)
    (hnum : aug.numNodes = phys.numNodes + 1)
    (hold : ∀ u v, v ∈ phys.nbrs u → v ∈ aug.nbrs u)
    (hhub : ∀ v : Fin phys.numNodes, v = ⟨0, hphys.pos⟩ ∨
      ¬ phys.simple.Reachable ⟨0, hphys.pos⟩ v → phys.numNodes ∈ aug.nbrs v) :
    aug.simple.Connected := by
  let embed : phys.simple →g aug.simple := {
    toFun := fun v => ⟨v.val, by omega⟩
    map_rel' := fun hadj => haug.simple_adj.mpr (hold _ _ (hphys.simple_adj.mp hadj)) }
  let hub : Fin aug.numNodes := ⟨phys.numNodes, by omega⟩
  have hnext : ∀ v : Fin phys.numNodes, v = ⟨0, hphys.pos⟩ ∨
      ¬ phys.simple.Reachable ⟨0, hphys.pos⟩ v → aug.simple.Reachable (embed v) hub :=
    fun v hv => (haug.simple_adj.mpr (hhub v hv)).reachable
  refine connected_of_reachable (embed ⟨0, hphys.pos⟩) fun v => ?_
  by_cases hv : v.val < phys.numNodes
  · by_cases hreach : phys.simple.Reachable ⟨0, hphys.pos⟩ ⟨v.val, hv⟩
    · exact hreach.map embed
    · exact (hnext _ (.inl rfl)).trans (hnext ⟨v.val, hv⟩ (.inr hreach)).symm
  · obtain rfl : v = hub := Fin.ext (by simp only [hub]; omega)
    exact hnext _ (.inl rfl)

/-- `build_connected_graph` gives a connected graph, with the edges of the list among the nodes of
the list, and adds a hub exactly if the edges do not connect the nodes. -/
theorem connected_of_build (hn : 0 < n) (hedges : ∀ e ∈ edges, e.1 < n ∧ e.2 < n) :
    ∃ g hub, buildConnectedGraph n edges = .ok (g, hub) ∧
      g.simple.Connected ∧ g.numNodes = (if hub then n + 1 else n) ∧
      (∀ u, (g.nbrs u).Nodup) ∧
      (∀ u v, u < n → v < n → (v ∈ g.nbrs u ↔ u ≠ v ∧ ((u, v) ∈ edges ∨ (v, u) ∈ edges))) ∧
      (hub = true ↔ ¬ (physical n edges).Connected) := by
  obtain ⟨phys, hfrom⟩ := exists_fromEdges hn hedges
  obtain ⟨hvalid, rfl, -, hmem⟩ := of_fromEdges hfrom
  rw [buildConnectedGraph, hfrom, ← simple_eq_physical hfrom]
  dsimp only
  split
  · rename_i hconn
    rw [isConnected_iff hvalid] at hconn
    exact ⟨phys, false, rfl, hconn, rfl, hvalid.nodup, fun u v _ _ => hmem u v, by simp [hconn]⟩
  · rename_i hconn
    rw [isConnected_iff hvalid] at hconn
    obtain ⟨dists, hdists, hlen, hlabel⟩ := exists_bfs hvalid
    have hlt : ∀ {u : Nat}, dists[u]? = some none → u < phys.numNodes := fun hu =>
      hlen ▸ (List.getElem?_eq_some_iff.mp hu).1
    have hrange : ∀ e ∈ edges ++ hubEdges phys.numNodes dists,
        e.1 < phys.numNodes + 1 ∧ e.2 < phys.numNodes + 1 := by
      rintro ⟨u, v⟩ he
      rcases List.mem_append.mp he with he | he
      · obtain ⟨hu, hv⟩ := hedges _ he
        exact ⟨Nat.lt_succ_of_lt hu, Nat.lt_succ_of_lt hv⟩
      · obtain ⟨rfl, rfl | hnone⟩ := mem_hubEdges.mp he
        · exact ⟨Nat.succ_pos _, Nat.lt_succ_self _⟩
        · exact ⟨Nat.lt_succ_of_lt (hlt hnone), Nat.lt_succ_self _⟩
    obtain ⟨aug, haugFrom⟩ := exists_fromEdges (Nat.succ_pos phys.numNodes) hrange
    obtain ⟨haug, hnum, -, haugMem⟩ := of_fromEdges haugFrom
    rw [hdists]
    dsimp only
    rw [haugFrom]
    refine ⟨aug, true, rfl, ?_, hnum, haug.nodup, fun u v hu hv => ?_, by simp [hconn]⟩
    · refine connected_augmented hvalid haug hnum (fun u v hv => ?_) (fun v hv => ?_)
      · obtain ⟨hne, he⟩ := (hmem u v).mp hv
        exact (haugMem u v).mpr ⟨hne, he.imp (List.mem_append_left _) (List.mem_append_left _)⟩
      · refine (haugMem _ _).mpr ⟨Nat.ne_of_lt v.isLt, .inl (List.mem_append_right _ ?_)⟩
        refine mem_hubEdges.mpr ⟨rfl, hv.imp (fun hzero => by rw [hzero]) fun hnot => ?_⟩
        exact getElem?_of_labelOf (hlen.symm ▸ v.isLt) ((hlabel v).mpr hnot)
    · rw [haugMem]
      have hnot : ∀ {u v : Nat}, v < phys.numNodes →
          ((u, v) ∈ edges ++ hubEdges phys.numNodes dists ↔ (u, v) ∈ edges) := by
        intro u v hv
        rw [List.mem_append, mem_hubEdges]
        exact ⟨fun h => h.resolve_right fun hub => absurd hub.1 (Nat.ne_of_lt hv), .inl⟩
      rw [hnot hv, hnot hu]

/-- Two edges that do not meet are joined through a hub. -/
theorem connected_of_build_pairs :
    (∀ e ∈ [(0, 1), (1, 0), (2, 3), (2, 2)], e.1 < 4 ∧ e.2 < 4) ∧
      ∃ g, buildConnectedGraph 4 [(0, 1), (1, 0), (2, 3), (2, 2)] = .ok (g, true) ∧
        g.simple.Connected := by
  have hrange : ∀ e ∈ [(0, 1), (1, 0), (2, 3), (2, 2)], e.1 < 4 ∧ e.2 < 4 := by decide
  refine ⟨hrange, ?_⟩
  obtain ⟨g, hub, hbuild, hconn, -⟩ := connected_of_build (by decide) hrange
  have hhub : (buildConnectedGraph 4 [(0, 1), (1, 0), (2, 3), (2, 2)]).toOption.map (·.2) =
      some true := by decide +kernel
  rw [hbuild] at hhub
  obtain rfl : hub = true := Option.some.inj hhub
  exact ⟨g, hbuild, hconn⟩

end ActiveDefense.Spectral
