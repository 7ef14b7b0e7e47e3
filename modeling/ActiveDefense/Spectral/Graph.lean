import ActiveDefense.Lib.Machine
import Mathlib.Combinatorics.SimpleGraph.Basic

/-!
# The graph of the spectral engine

A `Graph` keeps, for each of its nodes, the list of the node's neighbours. `add_edge` leaves the
graph alone when a node is out of range, when the edge is a loop and when it is there already, and
puts each node at the end of the other's list otherwise (`addEdge_cases`). So the lists stay those
of a simple graph (`Graph.Valid`), and the graph of a list of edges has the edges of the list, in
either direction, and no other (`of_fromEdges`).
-/

namespace ActiveDefense.Spectral

/-- What `GraphError` says of the graph's own operations. -/
inductive GraphError where
  | emptyGraph
  | nodeOutOfRange (idx numNodes : Nat)
  | noPath (start goal : Nat)
deriving DecidableEq, Repr

/-- `spectral_graph::Graph`. -/
structure Graph where
  numNodes : Nat
  adjacency : List (List Nat)
deriving DecidableEq, Repr

namespace Graph

/-- `Graph::new`. -/
def new (numNodes : Nat) : Except GraphError Graph :=
  if numNodes = 0 then .error .emptyGraph
  else .ok { numNodes := numNodes, adjacency := List.replicate numNodes [] }

/-- `validate_node`. -/
def validateNode (g : Graph) (idx : Nat) : Except GraphError Unit :=
  if g.numNodes ≤ idx then .error (.nodeOutOfRange idx g.numNodes) else .ok ()

/-- `self.adjacency[idx]`. -/
def nbrs (g : Graph) (idx : Nat) : List Nat := g.adjacency.getD idx []

/-- The two pushes of `add_edge`. -/
def push (g : Graph) (u v : Nat) : Graph :=
  { g with adjacency := (g.adjacency.modify u (· ++ [v])).modify v (· ++ [u]) }

/-- `Graph::add_edge`. -/
def addEdge : Machine Graph (Nat × Nat) (Except GraphError Unit) := fun g (u, v) =>
  match g.validateNode u with
  | .error e => (.error e, g)
  | .ok () =>
    match g.validateNode v with
    | .error e => (.error e, g)
    | .ok () =>
      if u = v then (.ok (), g)
      else if (g.nbrs u).contains v then (.ok (), g)
      else (.ok (), g.push u v)

/-- The loop of `from_edges`. -/
def addEdges (g : Graph) : List (Nat × Nat) → Except GraphError Graph
  | [] => .ok g
  | edge :: edges =>
    match addEdge g edge with
    | (.error e, _) => .error e
    | (.ok (), g) => g.addEdges edges

/-- `Graph::from_edges`. -/
def fromEdges (numNodes : Nat) (edges : List (Nat × Nat)) : Except GraphError Graph :=
  match new numNodes with
  | .error e => .error e
  | .ok g => g.addEdges edges

/-! ## Neighbours -/

/-- The lists of a simple graph on the nodes `0 .. numNodes - 1`. -/
structure Valid (g : Graph) : Prop where
  pos : 0 < g.numNodes
  length_eq : g.adjacency.length = g.numNodes
  inRange : ∀ u v, v ∈ g.nbrs u → v < g.numNodes
  symm : ∀ u v, v ∈ g.nbrs u → u ∈ g.nbrs v
  loopless : ∀ u, u ∉ g.nbrs u
  nodup : ∀ u, (g.nbrs u).Nodup

variable {g g' : Graph} {n u v w x : Nat} {edges : List (Nat × Nat)}

theorem nbrs_of_new (h : new n = .ok g) : g.numNodes = n ∧ 0 < n ∧ ∀ u, g.nbrs u = [] := by
  rw [new] at h
  split at h
  · cases h
  · rename_i hn
    cases h
    refine ⟨rfl, Nat.pos_of_ne_zero hn, fun u => ?_⟩
    rw [nbrs, List.getD_eq_getElem?_getD, List.getElem?_replicate]
    split <;> rfl

theorem valid_of_new (h : new n = .ok g) : g.Valid := by
  obtain ⟨hn, hpos, hnbrs⟩ := nbrs_of_new h
  have hlen : g.adjacency.length = g.numNodes := by
    rw [new] at h
    split at h
    · cases h
    · cases h
      exact List.length_replicate
  refine ⟨hn ▸ hpos, hlen, ?_, ?_, ?_, ?_⟩
  · intro u v hv
    rw [hnbrs] at hv
    cases hv
  · intro u v hv
    rw [hnbrs] at hv
    cases hv
  · intro u hu
    rw [hnbrs] at hu
    cases hu
  · intro u
    rw [hnbrs]
    exact List.nodup_nil

theorem Valid.lt_left (h : g.Valid) (hv : v ∈ g.nbrs u) : u < g.numNodes :=
  h.inRange v u (h.symm u v hv)

@[simp] theorem numNodes_push : (g.push u v).numNodes = g.numNodes := rfl

@[simp] theorem length_push : (g.push u v).adjacency.length = g.adjacency.length := by
  simp [push]

theorem getD_modify {lists : List (List Nat)} (f : List Nat → List Nat) (hu : u < lists.length) :
    (lists.modify u f).getD w [] = if w = u then f (lists.getD u []) else lists.getD w [] := by
  simp only [List.getD_eq_getElem?_getD, List.getElem?_modify]
  by_cases hwu : w = u
  · subst hwu
    simp [List.getElem?_eq_getElem hu]
  · simp [hwu, Ne.symm hwu]

/-- The lists after the two pushes. -/
theorem nbrs_push (hu : u < g.adjacency.length) (hv : v < g.adjacency.length) (huv : u ≠ v) :
    (g.push u v).nbrs w =
      if w = u then g.nbrs u ++ [v] else if w = v then g.nbrs v ++ [u] else g.nbrs w := by
  have hv' : v < (g.adjacency.modify u (· ++ [v])).length := by simpa using hv
  rw [nbrs, push, getD_modify _ hv', getD_modify _ hu, getD_modify _ hu, if_neg huv.symm]
  by_cases hwv : w = v
  · rw [if_pos hwv, if_neg (hwv ▸ huv.symm), if_pos hwv]
    rfl
  · rw [if_neg hwv, if_neg hwv]
    rfl

theorem mem_nbrs_push (hu : u < g.adjacency.length) (hv : v < g.adjacency.length) (huv : u ≠ v) :
    x ∈ (g.push u v).nbrs w ↔ x ∈ g.nbrs w ∨ (w = u ∧ x = v) ∨ (w = v ∧ x = u) := by
  rw [nbrs_push hu hv huv]
  split
  · rename_i hwu
    subst hwu
    simp [huv]
  · split
    · rename_i hwu hwv
      subst hwv
      simp [huv.symm]
    · rename_i hwu hwv
      simp [hwu, hwv]

/-- The two pushes of a new edge keep the lists those of a simple graph. -/
theorem Valid.push (h : g.Valid) (hu : u < g.numNodes) (hv : v < g.numNodes) (huv : u ≠ v)
    (hnew : v ∉ g.nbrs u) : (g.push u v).Valid := by
  have hu' : u < g.adjacency.length := h.length_eq ▸ hu
  have hv' : v < g.adjacency.length := h.length_eq ▸ hv
  have hmem : ∀ {w x}, x ∈ (g.push u v).nbrs w ↔ _ := mem_nbrs_push hu' hv' huv
  refine ⟨h.pos, length_push.trans h.length_eq, ?_, ?_, ?_, ?_⟩
  · intro w x hx
    rcases hmem.mp hx with hx | ⟨-, rfl⟩ | ⟨-, rfl⟩
    · exact h.inRange w x hx
    · exact hv
    · exact hu
  · intro w x hx
    rcases hmem.mp hx with hx | ⟨rfl, rfl⟩ | ⟨rfl, rfl⟩
    · exact hmem.mpr (.inl (h.symm w x hx))
    · exact hmem.mpr (.inr (.inr ⟨rfl, rfl⟩))
    · exact hmem.mpr (.inr (.inl ⟨rfl, rfl⟩))
  · intro w hw
    rcases hmem.mp hw with hw | ⟨rfl, rfl⟩ | ⟨rfl, rfl⟩
    · exact h.loopless w hw
    · exact huv rfl
    · exact huv rfl
  · intro w
    rw [nbrs_push hu' hv' huv]
    have hnew' : u ∉ g.nbrs v := fun hmem => hnew (h.symm v u hmem)
    split
    · exact (h.nodup u).append (List.nodup_singleton v) (by simpa using hnew)
    · split
      · exact (h.nodup v).append (List.nodup_singleton u) (by simpa using hnew')
      · exact h.nodup w

/-! ## `add_edge` -/

/-- What `add_edge` does: it fails, with the first of the nodes that is out of range, or leaves a
loop or an edge that is there, or adds the edge. -/
theorem addEdge_cases (g : Graph) (u v : Nat) :
    (g.numNodes ≤ u ∧ addEdge g (u, v) = (.error (.nodeOutOfRange u g.numNodes), g)) ∨
    (u < g.numNodes ∧ g.numNodes ≤ v ∧
      addEdge g (u, v) = (.error (.nodeOutOfRange v g.numNodes), g)) ∨
    (u < g.numNodes ∧ v < g.numNodes ∧ (u = v ∨ v ∈ g.nbrs u) ∧ addEdge g (u, v) = (.ok (), g)) ∨
    (u < g.numNodes ∧ v < g.numNodes ∧ u ≠ v ∧ v ∉ g.nbrs u ∧
      addEdge g (u, v) = (.ok (), g.push u v)) := by
  simp only [addEdge, validateNode]
  by_cases hu : g.numNodes ≤ u
  · exact .inl ⟨hu, by simp [hu]⟩
  · by_cases hv : g.numNodes ≤ v
    · exact .inr (.inl ⟨Nat.lt_of_not_le hu, hv, by simp [hu, hv]⟩)
    · have hu' := Nat.lt_of_not_le hu
      have hv' := Nat.lt_of_not_le hv
      by_cases huv : u = v
      · exact .inr (.inr (.inl ⟨hu', hv', .inl huv, by simp [hv, huv]⟩))
      · by_cases hmem : v ∈ g.nbrs u
        · exact .inr (.inr (.inl ⟨hu', hv', .inr hmem, by simp [hu, hv, hmem]⟩))
        · exact .inr (.inr (.inr ⟨hu', hv', huv, hmem, by simp [hu, hv, huv, hmem]⟩))

/-- A call keeps the lists those of a simple graph, on the same nodes, whether it fails or not. -/
theorem Valid.addEdge (h : g.Valid) (edge : Nat × Nat) :
    (addEdge g edge).2.Valid ∧ (addEdge g edge).2.numNodes = g.numNodes := by
  obtain ⟨u, v⟩ := edge
  rcases addEdge_cases g u v with ⟨-, heq⟩ | ⟨-, -, heq⟩ | ⟨-, -, -, heq⟩ | ⟨hu, hv, huv, hnew, heq⟩
  · exact heq ▸ ⟨h, rfl⟩
  · exact heq ▸ ⟨h, rfl⟩
  · exact heq ▸ ⟨h, rfl⟩
  · exact heq ▸ ⟨h.push hu hv huv hnew, rfl⟩

/-- So does every sequence of calls. -/
theorem Valid.run (h : g.Valid) (calls : List (Nat × Nat)) :
    (Machine.run Graph.addEdge g calls).2.Valid ∧
      (Machine.run Graph.addEdge g calls).2.numNodes = g.numNodes := by
  induction calls generalizing g with
  | nil => exact ⟨h, rfl⟩
  | cons call calls ih =>
    obtain ⟨hvalid, hnum⟩ := h.addEdge call
    obtain ⟨hvalid', hnum'⟩ := ih hvalid
    exact ⟨hvalid', hnum'.trans hnum⟩

/-- The graphs that `new` and `add_edge` make. -/
def Built (g : Graph) : Prop :=
  ∃ n g₀ calls, new n = .ok g₀ ∧ (Machine.run Graph.addEdge g₀ calls).2 = g

theorem Built.valid (h : g.Built) : g.Valid := by
  obtain ⟨n, g₀, calls, hnew, rfl⟩ := h
  exact ((valid_of_new hnew).run calls).1

/-! ## The graph of a list of edges -/

/-- A call that does not fail adds the edge, unless it is a loop. -/
theorem Valid.mem_nbrs_addEdge (h : g.Valid) (heq : Graph.addEdge g (u, v) = (.ok (), g')) :
    u < g.numNodes ∧ v < g.numNodes ∧
      ∀ w x, x ∈ g'.nbrs w ↔ x ∈ g.nbrs w ∨ (u ≠ v ∧ ((w = u ∧ x = v) ∨ (w = v ∧ x = u))) := by
  rcases addEdge_cases g u v with
    ⟨-, h'⟩ | ⟨-, -, h'⟩ | ⟨hu, hv, hold, h'⟩ | ⟨hu, hv, huv, hnew, h'⟩
  · cases h'.symm.trans heq
  · cases h'.symm.trans heq
  · cases h'.symm.trans heq
    refine ⟨hu, hv, fun w x => ⟨.inl, ?_⟩⟩
    rintro (hx | ⟨huv, hx⟩)
    · exact hx
    · have hmem := hold.resolve_left huv
      rcases hx with ⟨rfl, rfl⟩ | ⟨rfl, rfl⟩
      · exact hmem
      · exact h.symm _ _ hmem
  · cases h'.symm.trans heq
    refine ⟨hu, hv, fun w x => ?_⟩
    rw [mem_nbrs_push (h.length_eq ▸ hu) (h.length_eq ▸ hv) huv]
    simp [huv]

theorem Valid.of_addEdges (h : g.Valid) (heq : g.addEdges edges = .ok g') :
    g'.Valid ∧ g'.numNodes = g.numNodes ∧ (∀ e ∈ edges, e.1 < g.numNodes ∧ e.2 < g.numNodes) ∧
      ∀ w x, x ∈ g'.nbrs w ↔ x ∈ g.nbrs w ∨ (w ≠ x ∧ ((w, x) ∈ edges ∨ (x, w) ∈ edges)) := by
  induction edges generalizing g with
  | nil =>
    cases heq
    exact ⟨h, rfl, by simp, by simp⟩
  | cons edge edges ih =>
    obtain ⟨u, v⟩ := edge
    rw [addEdges] at heq
    split at heq
    · cases heq
    · rename_i g₁ hadd
      have hvalid := (h.addEdge (u, v)).1
      have hnum := (h.addEdge (u, v)).2
      rw [hadd] at hvalid hnum
      obtain ⟨hu, hv, hmem⟩ := h.mem_nbrs_addEdge hadd
      obtain ⟨hvalid', hnum', hrange, hmem'⟩ := ih hvalid heq
      refine ⟨hvalid', hnum'.trans hnum, ?_, fun w x => ?_⟩
      · intro e he
        rcases List.mem_cons.mp he with rfl | he
        · exact ⟨hu, hv⟩
        · exact hnum ▸ hrange e he
      · rw [hmem', hmem]
        simp only [List.mem_cons, Prod.mk.injEq]
        grind

theorem Valid.exists_addEdges (h : g.Valid)
    (hrange : ∀ e ∈ edges, e.1 < g.numNodes ∧ e.2 < g.numNodes) :
    ∃ g', g.addEdges edges = .ok g' := by
  induction edges generalizing g with
  | nil => exact ⟨g, rfl⟩
  | cons edge edges ih =>
    obtain ⟨u, v⟩ := edge
    obtain ⟨hu, hv⟩ := hrange (u, v) (.head _)
    obtain ⟨hvalid, hnum⟩ := h.addEdge (u, v)
    have hok : ∃ g₁, Graph.addEdge g (u, v) = (.ok (), g₁) := by
      rcases addEdge_cases g u v with ⟨hout, -⟩ | ⟨-, hout, -⟩ | ⟨-, -, -, h'⟩ | ⟨-, -, -, -, h'⟩
      · omega
      · omega
      · exact ⟨_, h'⟩
      · exact ⟨_, h'⟩
    obtain ⟨g₁, hadd⟩ := hok
    rw [hadd] at hvalid hnum
    rw [addEdges, hadd]
    exact ih hvalid fun e he => hnum ▸ hrange e (.tail _ he)

theorem addEdges_append (g : Graph) (edges rest : List (Nat × Nat)) :
    g.addEdges (edges ++ rest) =
      match g.addEdges edges with
      | .error e => .error e
      | .ok g => g.addEdges rest := by
  induction edges generalizing g with
  | nil => rfl
  | cons edge edges ih =>
    simp only [List.cons_append, addEdges]
    split
    · rfl
    · exact ih _

/-- The same call again leaves the graph as it is. -/
theorem Valid.addEdge_again {edge : Nat × Nat} (h : g.Valid)
    (heq : Graph.addEdge g edge = (.ok (), g')) : Graph.addEdge g' edge = (.ok (), g') := by
  obtain ⟨u, v⟩ := edge
  obtain ⟨hu, hv, hmem⟩ := h.mem_nbrs_addEdge heq
  have hnum : g'.numNodes = g.numNodes := by
    have hcall := (h.addEdge (u, v)).2
    rwa [heq] at hcall
  have hold : u = v ∨ v ∈ g'.nbrs u := by
    by_cases huv : u = v
    · exact .inl huv
    · exact .inr ((hmem u v).mpr (.inr ⟨huv, .inl ⟨rfl, rfl⟩⟩))
  rcases addEdge_cases g' u v with ⟨hout, -⟩ | ⟨-, hout, -⟩ | ⟨-, -, -, h'⟩ | ⟨-, -, huv, hnew, -⟩
  · omega
  · omega
  · exact h'
  · rcases hold with heq' | hmem'
    · exact absurd heq' huv
    · exact absurd hmem' hnew

/-- An edge that is twice in a row in a list makes no difference. -/
theorem fromEdges_repeat (n : Nat) (edges : List (Nat × Nat)) (edge : Nat × Nat)
    (rest : List (Nat × Nat)) :
    fromEdges n (edges ++ edge :: edge :: rest) = fromEdges n (edges ++ edge :: rest) := by
  rw [fromEdges, fromEdges]
  cases hnew : new n with
  | error e => rfl
  | ok g =>
    dsimp only
    rw [addEdges_append, addEdges_append]
    cases hadd : g.addEdges edges with
    | error e => rfl
    | ok g₁ =>
      have hvalid := ((valid_of_new hnew).of_addEdges hadd).1
      dsimp only
      rw [addEdges, addEdges]
      split
      · rfl
      · rename_i g₂ hfirst
        rw [addEdges, hvalid.addEdge_again hfirst]

/-- The graph that the edges of a list make, without loops, repetitions and directions. -/
def physical (n : Nat) (edges : List (Nat × Nat)) : SimpleGraph (Fin n) :=
  SimpleGraph.fromRel fun u v => (u.val, v.val) ∈ edges

/-- The simple graph of the lists. -/
def simple (g : Graph) : SimpleGraph (Fin g.numNodes) :=
  SimpleGraph.fromRel fun u v => v.val ∈ g.nbrs u.val

theorem Valid.simple_adj (h : g.Valid) {u v : Fin g.numNodes} :
    g.simple.Adj u v ↔ v.val ∈ g.nbrs u.val := by
  rw [simple, SimpleGraph.fromRel_adj]
  constructor
  · rintro ⟨-, hv | hu⟩
    · exact hv
    · exact h.symm _ _ hu
  · intro hv
    refine ⟨?_, .inl hv⟩
    rintro rfl
    exact h.loopless _ hv

/-- A graph from edges has these edges and no others. -/
theorem of_fromEdges (h : fromEdges n edges = .ok g) :
    g.Valid ∧ g.numNodes = n ∧ (∀ e ∈ edges, e.1 < n ∧ e.2 < n) ∧
      ∀ u v, v ∈ g.nbrs u ↔ u ≠ v ∧ ((u, v) ∈ edges ∨ (v, u) ∈ edges) := by
  rw [fromEdges] at h
  split at h
  · cases h
  · rename_i g₀ hnew
    obtain ⟨hn, -, hnil⟩ := nbrs_of_new hnew
    obtain ⟨hvalid, hnum, hrange, hmem⟩ := (valid_of_new hnew).of_addEdges h
    refine ⟨hvalid, hnum.trans hn, hn ▸ hrange, fun u v => ?_⟩
    rw [hmem, hnil]
    simp

/-- Edges between nodes make a graph. -/
theorem exists_fromEdges (hn : 0 < n) (hrange : ∀ e ∈ edges, e.1 < n ∧ e.2 < n) :
    ∃ g, fromEdges n edges = .ok g := by
  have hnew : new n = .ok { numNodes := n, adjacency := List.replicate n [] } :=
    if_neg (Nat.ne_of_gt hn)
  rw [fromEdges, hnew]
  exact (valid_of_new hnew).exists_addEdges hrange

/-- The lists of a graph from edges are those of the graph that the edges make. -/
theorem simple_eq_physical (h : fromEdges g.numNodes edges = .ok g) :
    g.simple = physical g.numNodes edges := by
  obtain ⟨hvalid, -, -, hmem⟩ := of_fromEdges h
  ext u v
  rw [hvalid.simple_adj, hmem, physical, SimpleGraph.fromRel_adj, Ne, Ne, Fin.ext_iff]

end Graph

end ActiveDefense.Spectral
