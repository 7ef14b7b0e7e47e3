import ActiveDefense.Lib.Bfs
import ActiveDefense.Rust.Arith
import ActiveDefense.Spectral.Graph

/-!
# The distances of a graph

`bfs_distances` labels every node that a search from the start finds, and `topological_distance`
stops such a search when it takes the goal from the queue; the first keeps its labels in a vector of
`Option`s, the second in one of numbers, in which `usize::MAX` stands for no label. The first is a
search by queue of `ActiveDefense.Lib.Bfs` (`search_bfsLoop`), so its labels are the distances of
the graph; the second finds the label that the first gives the goal (`distanceLoop_eq`).
-/

namespace ActiveDefense.Spectral.Graph

variable (g : Graph)

/-! ## The searches -/

/-- A turn of the inner loop of `bfs_distances`, from a node at distance `d`. -/
def look (d : Nat) (state : List (Option Nat) × List Nat) (nbr : Nat) :
    List (Option Nat) × List Nat :=
  if state.1[nbr]? = some none then (state.1.set nbr (some (d + 1)), state.2 ++ [nbr]) else state

/-- How many turns of the outer loop are left at most. -/
def turnsLeft (state : List (Option Nat) × List Nat) : Nat :=
  state.1.count none + state.2.length

theorem turnsLeft_look (d : Nat) (state : List (Option Nat) × List Nat) (nbr : Nat) :
    turnsLeft (look d state nbr) = turnsLeft state := by
  rw [look]
  split
  · rename_i hnone
    obtain ⟨hlt, hget⟩ := List.getElem?_eq_some_iff.mp hnone
    have hpos : 0 < state.1.count none := List.count_pos_iff.mpr (hget ▸ List.getElem_mem hlt)
    simp only [turnsLeft, List.count_set hlt, hget, List.length_append, List.length_singleton]
    simp
    omega
  · rfl

theorem turnsLeft_foldl (d : Nat) (nbrs : List Nat) (state : List (Option Nat) × List Nat) :
    turnsLeft (nbrs.foldl (look d) state) = turnsLeft state := by
  induction nbrs generalizing state with
  | nil => rfl
  | cons nbr nbrs ih => rw [List.foldl_cons, ih, turnsLeft_look]

/-- The label of a node. -/
def labelOf (dist : List (Option Nat)) (v : Nat) : Option Nat := dist.getD v none

/-- The outer loop of `bfs_distances`. The node that it takes from the queue has a label. -/
def bfsLoop : List (Option Nat) → List Nat → List (Option Nat)
  | dist, [] => dist
  | dist, curr :: queue =>
    let d := (labelOf dist curr).getD 0
    let state := (g.nbrs curr).foldl (look d) (dist, queue)
    bfsLoop state.1 state.2
termination_by dist queue => turnsLeft (dist, queue)
decreasing_by
  change turnsLeft state < turnsLeft (dist, curr :: queue)
  rw [turnsLeft_foldl]
  simp [turnsLeft]

/-- `Graph::bfs_distances`. -/
def bfsDistances (start : Nat) : Except GraphError (List (Option Nat)) :=
  match g.validateNode start with
  | .error e => .error e
  | .ok () => .ok (g.bfsLoop ((List.replicate g.numNodes none).set start (some 0)) [start])

/-- A turn of the inner loop of `topological_distance`. -/
def lookMax (d : Nat) (state : List Nat × List Nat) (nbr : Nat) : List Nat × List Nat :=
  if state.1[nbr]? = some usizeMax then (state.1.set nbr (d + 1), state.2 ++ [nbr]) else state

/-- The outer loop of `topological_distance`, for so many turns at most; `none` where it has not
returned by then. -/
def distanceLoop (start goal : Nat) :
    Nat → List Nat → List Nat → Option (Except GraphError Nat)
  | 0, _, _ => none
  | _ + 1, _, [] => some (.error (.noPath start goal))
  | turns + 1, dist, curr :: queue =>
    let d := dist.getD curr 0
    if curr = goal then some (.ok d)
    else
      let state := (g.nbrs curr).foldl (lookMax d) (dist, queue)
      distanceLoop start goal turns state.1 state.2

/-- `Graph::topological_distance`. -/
def topologicalDistance (turns start goal : Nat) : Option (Except GraphError Nat) :=
  match g.validateNode start with
  | .error e => some (.error e)
  | .ok () =>
    match g.validateNode goal with
    | .error e => some (.error e)
    | .ok () =>
      if start = goal then some (.ok 0)
      else
        g.distanceLoop start goal turns ((List.replicate g.numNodes usizeMax).set start 0) [start]

/-! ## The labels -/

section
variable {g} {dist : List (Option Nat)} {queue nbrs : List Nat} {d k v w : Nat}
  {state : List (Option Nat) × List Nat}

theorem labelOf_set (hw : w < dist.length) (k : Nat) :
    labelOf (dist.set w (some k)) = Function.update (labelOf dist) w (some k) := by
  funext v
  by_cases hv : v = w
  · subst hv
    rw [Function.update_self, labelOf, List.getD_eq_getElem?_getD, List.getElem?_set_self hw]
    rfl
  · rw [Function.update_of_ne hv, labelOf, labelOf, List.getD_eq_getElem?_getD,
      List.getD_eq_getElem?_getD, List.getElem?_set_ne (Ne.symm hv)]

theorem labelOf_of_getElem? (h : dist[v]? = some none) :
    v < dist.length ∧ labelOf dist v = none := by
  obtain ⟨hlt, -⟩ := List.getElem?_eq_some_iff.mp h
  refine ⟨hlt, ?_⟩
  rw [labelOf, List.getD_eq_getElem?_getD, h]
  rfl

theorem getElem?_of_labelOf (hv : v < dist.length) (h : labelOf dist v = none) :
    dist[v]? = some none := by
  rw [labelOf, List.getD_eq_getElem?_getD] at h
  rw [List.getElem?_eq_getElem hv] at h ⊢
  exact congrArg some h

theorem getElem?_of_labelOf_some (h : labelOf dist v = some k) : dist[v]? = some (some k) := by
  rw [labelOf, List.getD_eq_getElem?_getD] at h
  cases hv : dist[v]? with
  | none =>
    rw [hv] at h
    cases h
  | some label =>
    rw [hv] at h
    exact congrArg some h

/-- A look leaves everything as it is, or labels a node that had no label and puts it at the end of
the queue. -/
theorem look_cases (d : Nat) (state : List (Option Nat) × List Nat) (w : Nat) :
    (state.1[w]? ≠ some none ∧ look d state w = state) ∨
    (state.1[w]? = some none ∧
      look d state w = (state.1.set w (some (d + 1)), state.2 ++ [w])) := by
  by_cases h : state.1[w]? = some none
  · exact .inr ⟨h, if_pos h⟩
  · exact .inl ⟨h, if_neg h⟩

/-- What a turn of the outer loop keeps: the labels, and the queue as a prefix; what is labelled
then and was not before is in the queue. -/
structure Grows (state next : List (Option Nat) × List Nat) : Prop where
  length_eq : next.1.length = state.1.length
  labels : ∀ v k, labelOf state.1 v = some k → labelOf next.1 v = some k
  queue : ∀ v ∈ state.2, v ∈ next.2
  labelled : ∀ v k, labelOf next.1 v = some k → labelOf state.1 v = some k ∨ v ∈ next.2
  queued : (∀ v ∈ state.2, labelOf state.1 v ≠ none) → ∀ v ∈ next.2, labelOf next.1 v ≠ none

theorem grows_look (d : Nat) (state : List (Option Nat) × List Nat) (w : Nat) :
    Grows state (look d state w) := by
  rcases look_cases d state w with ⟨-, heq⟩ | ⟨hnone, heq⟩
  · rw [heq]
    exact ⟨rfl, fun _ _ h => h, fun _ h => h, fun _ _ h => .inl h, fun h => h⟩
  · obtain ⟨hlt, hlabel⟩ := labelOf_of_getElem? hnone
    rw [heq]
    have hset := labelOf_set hlt (d + 1)
    have hkeep : ∀ v k, labelOf state.1 v = some k →
        labelOf (state.1.set w (some (d + 1))) v = some k := by
      intro v k hv
      rw [hset, Function.update_of_ne ?_, hv]
      rintro rfl
      rw [hlabel] at hv
      cases hv
    refine ⟨List.length_set, hkeep, fun v hv => List.mem_append_left _ hv, ?_, ?_⟩
    · intro v k hv
      by_cases hvw : v = w
      · subst hvw
        exact .inr (List.mem_append_right _ (List.mem_singleton_self v))
      · rw [hset, Function.update_of_ne hvw] at hv
        exact .inl hv
    · intro hqueue v hv
      rcases List.mem_append.mp hv with hv | hv
      · obtain ⟨k, hk⟩ := Option.ne_none_iff_exists'.mp (hqueue v hv)
        rw [hkeep v k hk]
        exact Option.some_ne_none k
      · obtain rfl := List.mem_singleton.mp hv
        rw [hset, Function.update_self]
        exact Option.some_ne_none _

theorem grows_foldl (d : Nat) (nbrs : List Nat) (state : List (Option Nat) × List Nat) :
    Grows state (nbrs.foldl (look d) state) := by
  induction nbrs generalizing state with
  | nil => exact ⟨rfl, fun _ _ h => h, fun _ h => h, fun _ _ h => .inl h, fun h => h⟩
  | cons w nbrs ih =>
    have hlook := grows_look d state w
    have hrest := ih (look d state w)
    refine ⟨hrest.length_eq.trans hlook.length_eq, fun v k hv => ?_, fun v hv => ?_,
      fun v k hv => ?_, fun hqueue => ?_⟩
    · exact hrest.labels v k (hlook.labels v k hv)
    · exact hrest.queue v (hlook.queue v hv)
    · rcases hrest.labelled v k hv with hv | hv
      · rcases hlook.labelled v k hv with hv | hv
        · exact .inl hv
        · exact .inr (hrest.queue v hv)
      · exact .inr hv
    · exact hrest.queued (hlook.queued hqueue)

/-- The outer loop keeps the labels. -/
theorem labelOf_bfsLoop (h : labelOf dist v = some k) :
    labelOf (g.bfsLoop dist queue) v = some k := by
  fun_induction bfsLoop g dist queue with
  | case1 dist => exact h
  | case2 dist curr queue d state ih => exact ih ((grows_foldl _ _ _).labels v k h)

end

/-! ## The labels are the distances -/

section
variable {g} {dist : List (Option Nat)} {queue : List Nat} {d s c : Nat}

/-- A step of the search. -/
def Nbr (g : Graph) (u v : Nat) : Prop := v ∈ g.nbrs u

theorem search_foldl (hc : labelOf dist c = some d) {nbrs : List Nat}
    (hnbrs : ∀ w ∈ nbrs, Nbr g c w ∧ w < dist.length)
    (h : Search (Nbr g) s (labelOf dist) d queue (nbrs.map fun w => (c, w))) :
    Search (Nbr g) s (labelOf (nbrs.foldl (look d) (dist, queue)).1) d
      (nbrs.foldl (look d) (dist, queue)).2 [] := by
  induction nbrs generalizing dist queue with
  | nil => exact h
  | cons w nbrs ih =>
    obtain ⟨hcw, hlt⟩ := hnbrs w (.head _)
    rw [List.foldl_cons]
    rcases look_cases d (dist, queue) w with ⟨hsome, heq⟩ | ⟨hnone, heq⟩
    · rw [heq]
      have hlabel : labelOf dist w ≠ none := fun hnone => hsome (getElem?_of_labelOf hlt hnone)
      obtain ⟨k, hk⟩ := Option.ne_none_iff_exists'.mp hlabel
      exact ih hc (fun x hx => hnbrs x (.tail _ hx)) (h.pass hc hk)
    · rw [heq]
      obtain ⟨-, hlabel⟩ := labelOf_of_getElem? hnone
      have hset : labelOf (dist.set w (some (d + 1))) = _ := labelOf_set hlt (d + 1)
      refine ih ?_ (fun x hx => ?_) ?_
      · rw [hset, Function.update_of_ne ?_, hc]
        rintro rfl
        rw [hlabel] at hc
        cases hc
      · rw [List.length_set]
        exact hnbrs x (.tail _ hx)
      · rw [hset]
        exact h.label hc hcw hlabel

/-- The outer loop goes on with the search until the queue is empty. -/
theorem search_bfsLoop (hvalid : g.Valid) (dist : List (Option Nat)) (queue : List Nat)
    (hlen : dist.length = g.numNodes) :
    ∀ d, Search (Nbr g) s (labelOf dist) d queue [] →
      ∃ d', Search (Nbr g) s (labelOf (g.bfsLoop dist queue)) d' [] [] := by
  fun_induction bfsLoop g dist queue with
  | case1 dist =>
    intro d h
    exact ⟨d, h⟩
  | case2 dist curr queue d state ih =>
    intro _ h
    have hnbrs : ∀ v, Nbr g curr v → v ∈ g.nbrs curr := fun v hv => hv
    obtain ⟨k, hk, hsearch⟩ := h.take hnbrs
    have hd : d = k := by
      change (labelOf dist curr).getD 0 = k
      rw [hk]
      rfl
    refine ih ((grows_foldl ..).length_eq.trans hlen) k ?_
    subst hd
    exact search_foldl hk (fun w hw => ⟨hw, hlen ▸ hvalid.inRange curr w hw⟩) hsearch

theorem length_bfsLoop : (g.bfsLoop dist queue).length = dist.length := by
  fun_induction bfsLoop g dist queue with
  | case1 dist => rfl
  | case2 dist curr queue d state ih => exact ih.trans (grows_foldl ..).length_eq

/-- The labels at the start. -/
theorem search_init (hs : s < g.numNodes) :
    Search (Nbr g) s (labelOf ((List.replicate g.numNodes none).set s (some 0))) 0 [s] [] := by
  have hnone : labelOf (List.replicate g.numNodes none) = fun _ => none := by
    funext v
    rw [labelOf, List.getD_eq_getElem?_getD, List.getElem?_replicate]
    split <;> rfl
  rw [labelOf_set (by simpa using hs), hnone]
  exact search_start

/-- The steps of the search are those of the simple graph. -/
theorem hops_nbr_iff (hvalid : g.Valid) {k : Nat} {u v : Fin g.numNodes} :
    Hops (Nbr g) u.val k v.val ↔ Hops g.simple.Adj u k v := by
  constructor
  · intro h
    have hall : ∀ j t, Hops (Nbr g) u.val j t → ∃ v : Fin g.numNodes, v.val = t ∧
        Hops g.simple.Adj u j v := by
      intro j t hj
      induction hj with
      | start => exact ⟨u, rfl, .start⟩
      | @step j x y _ hxy ih =>
        obtain ⟨v, rfl, hv⟩ := ih
        exact ⟨⟨y, hvalid.inRange v.val y hxy⟩, rfl, hv.step (hvalid.simple_adj.mpr hxy)⟩
    obtain ⟨v', hv', hops⟩ := hall k v.val h
    rwa [Fin.ext hv'] at hops
  · intro h
    induction h with
    | start => exact .start
    | step _ hadj ih => exact .step ih (hvalid.simple_adj.mp hadj)

theorem shortest_nbr_iff (hvalid : g.Valid) {k : Nat} {u v : Fin g.numNodes} :
    Shortest (Nbr g) u.val v.val k ↔ g.simple.edist u v = k := by
  rw [← shortest_adj_iff, Shortest, Shortest, hops_nbr_iff hvalid]
  simp only [hops_nbr_iff hvalid]

/-- `bfs_distances` labels each node with its distance. -/
theorem labelOf_bfs_iff (hvalid : g.Valid) {u v : Fin g.numNodes} {k : Nat} :
    labelOf (g.bfsLoop ((List.replicate g.numNodes none).set u (some 0)) [u.val]) v = some k ↔
      g.simple.edist u v = k := by
  obtain ⟨d, h⟩ := search_bfsLoop hvalid _ [u.val] (by simp) 0 (search_init u.isLt)
  rw [h.label_iff, shortest_nbr_iff hvalid]

theorem labelOf_bfs_eq_none_iff (hvalid : g.Valid) {u v : Fin g.numNodes} :
    labelOf (g.bfsLoop ((List.replicate g.numNodes none).set u (some 0)) [u.val]) v = none ↔
      g.simple.edist u v = ⊤ := by
  rw [← not_iff_not, ← Ne, ← Ne, Option.ne_none_iff_exists', ENat.ne_top_iff_exists]
  simp only [labelOf_bfs_iff hvalid, eq_comm]

/-- A distance is less than the number of nodes. -/
theorem lt_numNodes_of_edist {u v : Fin g.numNodes} {k : Nat} (h : g.simple.edist u v = k) :
    k < g.numNodes := by
  obtain ⟨p, hp⟩ := SimpleGraph.exists_walk_of_edist_eq_coe h
  obtain ⟨q, hpath, hq⟩ := p.reachable.exists_path_of_dist
  have hlen : q.length < Fintype.card (Fin g.numNodes) := hpath.length_lt
  have hdist : (g.simple.dist u v : ℕ∞) = g.simple.edist u v := p.reachable.coe_dist_eq_edist
  rw [h, Nat.cast_inj] at hdist
  rw [Fintype.card_fin] at hlen
  omega

end

/-! ## The search that stops at the goal -/

section
variable {g} {dist : List (Option Nat)} {queue : List Nat} {start goal : Nat}

/-- A label as a number. -/
def encode (label : Option Nat) : Nat := label.getD usizeMax

theorem lookMax_encode {d w : Nat} {queue : List Nat}
    (hmax : ∀ v k, labelOf dist v = some k → k < usizeMax) :
    lookMax d (dist.map encode, queue) w =
      ((look d (dist, queue) w).1.map encode, (look d (dist, queue) w).2) := by
  have hiff : (dist.map encode)[w]? = some usizeMax ↔ dist[w]? = some none := by
    rw [List.getElem?_map]
    constructor
    · intro h
      obtain ⟨label, hlabel, henc⟩ := Option.map_eq_some_iff.mp h
      cases label with
      | none => exact hlabel
      | some k =>
        have hlabelled : labelOf dist w = some k := by
          rw [labelOf, List.getD_eq_getElem?_getD, hlabel]
          rfl
        have hk : k < usizeMax := hmax w k hlabelled
        exact absurd henc (Nat.ne_of_lt hk)
    · intro h
      rw [h]
      rfl
  rcases look_cases d (dist, queue) w with ⟨hsome, heq⟩ | ⟨hnone, heq⟩
  · rw [heq, lookMax, if_neg (hiff.not.mpr hsome)]
  · rw [heq, lookMax, if_pos (hiff.mpr hnone), List.map_set]
    rfl

theorem foldl_lookMax_encode {d : Nat} {queue nbrs : List Nat}
    (hmax : ∀ v k, labelOf (nbrs.foldl (look d) (dist, queue)).1 v = some k → k < usizeMax) :
    nbrs.foldl (lookMax d) (dist.map encode, queue) =
      ((nbrs.foldl (look d) (dist, queue)).1.map encode,
        (nbrs.foldl (look d) (dist, queue)).2) := by
  induction nbrs generalizing dist queue with
  | nil => rfl
  | cons w nbrs ih =>
    rw [List.foldl_cons, List.foldl_cons, lookMax_encode]
    · exact ih hmax
    · intro v k hv
      refine hmax v k ((grows_foldl d nbrs _).labels v k ?_)
      exact (grows_look d (dist, queue) w).labels v k hv

/-- With enough turns the search that stops at the goal returns the label that the whole search
gives it. -/
theorem distanceLoop_eq (dist : List (Option Nat)) (queue : List Nat)
    (hmax : ∀ v k, labelOf (g.bfsLoop dist queue) v = some k → k < usizeMax)
    (hqueued : ∀ v ∈ queue, labelOf dist v ≠ none)
    (hgoal : ∀ k, labelOf dist goal = some k → goal ∈ queue) :
    ∀ turns, turnsLeft (dist, queue) < turns →
      g.distanceLoop start goal turns (dist.map encode) queue =
        some (match labelOf (g.bfsLoop dist queue) goal with
          | some k => .ok k
          | none => .error (.noPath start goal)) := by
  fun_induction bfsLoop g dist queue with
  | case1 dist =>
    rintro (_ | turns) hturns
    · exact absurd hturns (Nat.not_lt_zero _)
    · have hnone : labelOf dist goal = none :=
        Option.eq_none_iff_forall_ne_some.mpr fun k hk => List.not_mem_nil (hgoal k hk)
      rw [hnone, distanceLoop]
  | case2 dist curr queue d state ih =>
    rintro (_ | turns) hturns
    · exact absurd hturns (Nat.not_lt_zero _)
    · obtain ⟨k, hk⟩ := Option.ne_none_iff_exists'.mp (hqueued curr (.head _))
      have hd : d = k := by
        change (labelOf dist curr).getD 0 = k
        rw [hk]
        rfl
      have hcurr : (dist.map encode).getD curr 0 = d := by
        rw [List.getD_eq_getElem?_getD, List.getElem?_map, getElem?_of_labelOf_some hk, hd]
        rfl
      have hgrows : Grows (dist, queue) state := grows_foldl ..
      rw [distanceLoop]
      dsimp only
      rw [hcurr]
      split
      · rename_i heq
        subst heq
        rw [labelOf_bfsLoop (hgrows.labels curr k hk), hd]
      · rename_i hne
        rw [foldl_lookMax_encode fun v j hv => hmax v j (labelOf_bfsLoop hv)]
        refine ih hmax (hgrows.queued fun v hv => hqueued v (.tail _ hv)) (fun j hj => ?_) turns ?_
        · rcases hgrows.labelled goal j hj with hold | hnew
          · rcases List.mem_cons.mp (hgoal j hold) with rfl | hmem
            · exact absurd rfl hne
            · exact hgrows.queue goal hmem
          · exact hnew
        · change turnsLeft state < turns
          have hleft : turnsLeft state = turnsLeft (dist, queue) := turnsLeft_foldl ..
          have hcons : turnsLeft (dist, curr :: queue) = turnsLeft (dist, queue) + 1 := rfl
          omega

theorem encode_init (n s : Nat) :
    ((List.replicate n none).set s (some 0)).map encode = (List.replicate n usizeMax).set s 0 := by
  rw [List.map_set, List.map_replicate]
  rfl

theorem turnsLeft_init {n s : Nat} (hs : s < n) :
    turnsLeft ((List.replicate n none).set s (some 0), [s]) = n := by
  simp only [turnsLeft, List.length_singleton]
  rw [List.count_set (by simpa using hs)]
  simp
  omega

/-- `topological_distance` returns what `bfs_distances` says of the goal. -/
theorem topologicalDistance_eq (hvalid : g.Valid) (hmax : g.numNodes ≤ usizeMax)
    (u v : Fin g.numNodes) {turns : Nat} (hturns : g.numNodes < turns) :
    g.topologicalDistance turns u v =
      some (match
          labelOf (g.bfsLoop ((List.replicate g.numNodes none).set u (some 0)) [u.val]) v with
        | some k => .ok k
        | none => .error (.noPath u v)) := by
  have hlabel : labelOf ((List.replicate g.numNodes none).set u (some 0)) =
      Function.update (fun _ => none) u.val (some 0) := by
    rw [labelOf_set (by simp)]
    congr 1
    funext w
    rw [labelOf, List.getD_eq_getElem?_getD, List.getElem?_replicate]
    split <;> rfl
  have hself : labelOf ((List.replicate g.numNodes none).set u (some 0)) u = some 0 := by
    rw [hlabel, Function.update_self]
  rw [topologicalDistance, validateNode, if_neg (Nat.not_le_of_lt u.isLt), validateNode,
    if_neg (Nat.not_le_of_lt v.isLt)]
  dsimp only
  split
  · rename_i huv
    rw [← huv, labelOf_bfsLoop hself]
  · rw [← encode_init]
    refine distanceLoop_eq _ _ (fun w k hw => ?_) (fun w hw => ?_) (fun k hk => ?_) turns ?_
    · have hlt : w < g.numNodes := by
        have hsome := (List.getElem?_eq_some_iff.mp (getElem?_of_labelOf_some hw)).1
        rwa [length_bfsLoop, List.length_set, List.length_replicate] at hsome
      have hdist := (labelOf_bfs_iff hvalid (v := ⟨w, hlt⟩)).mp hw
      exact Nat.lt_of_lt_of_le (lt_numNodes_of_edist hdist) hmax
    · obtain rfl := List.mem_singleton.mp hw
      rw [hself]
      exact Option.some_ne_none 0
    · rw [hlabel] at hk
      by_cases hvu : v.val = u.val
      · exact List.mem_singleton.mpr hvu
      · rw [Function.update_of_ne hvu] at hk
        cases hk
    · rwa [turnsLeft_init u.isLt]

end

/-- The call of `topological_distance` returns. -/
def Returns (g : Graph) (start goal : Nat) (result : Except GraphError Nat) : Prop :=
  ∃ enough, ∀ turns, enough ≤ turns → g.topologicalDistance turns start goal = some result

variable {g}

theorem Returns.eq {s t : Nat} {r r' : Except GraphError Nat} (h : g.Returns s t r)
    (h' : g.Returns s t r') : r = r' := by
  obtain ⟨enough, henough⟩ := h
  obtain ⟨enough', henough'⟩ := h'
  have hr := henough (max enough enough') (Nat.le_max_left ..)
  rw [henough' _ (Nat.le_max_right ..)] at hr
  exact (Option.some.inj hr).symm

/-- The call returns the distance if there is one and the error that there is no path else. -/
theorem returns_iff (hvalid : g.Valid) (hmax : g.numNodes ≤ usizeMax) (u v : Fin g.numNodes) :
    (∀ d : Nat, g.Returns u v (.ok d) ↔ g.simple.edist u v = d) ∧
      (g.Returns u v (.error (.noPath u v)) ↔ g.simple.edist u v = ⊤) := by
  have hreturns : ∃ r, g.Returns u v r ∧ (∀ d : Nat, r = .ok d ↔ g.simple.edist u v = d) ∧
      (r = .error (.noPath u v) ↔ g.simple.edist u v = ⊤) := by
    refine ⟨_, ⟨g.numNodes + 1, fun turns hturns =>
      topologicalDistance_eq hvalid hmax u v (Nat.lt_of_succ_le hturns)⟩, fun d => ?_, ?_⟩
    · rw [← labelOf_bfs_iff hvalid]
      cases labelOf (g.bfsLoop ((List.replicate g.numNodes none).set u (some 0)) [u.val]) v <;> simp
    · rw [← labelOf_bfs_eq_none_iff hvalid]
      cases labelOf (g.bfsLoop ((List.replicate g.numNodes none).set u (some 0)) [u.val]) v <;> simp
  obtain ⟨r, hr, hok, herror⟩ := hreturns
  constructor
  · intro d
    rw [← hok d]
    exact ⟨hr.eq, fun heq => heq ▸ hr⟩
  · rw [← herror]
    exact ⟨hr.eq, fun heq => heq ▸ hr⟩

/-- The distances of a graph that is built from edges: `topological_distance` returns, the number of
edges of a shortest path where there is a path and the error else; `bfs_distances` has the same
number; and the number is a distance. -/
theorem distances_of_fromEdges {n : Nat} {edges : List (Nat × Nat)} (h : fromEdges n edges = .ok g)
    (hmax : n ≤ usizeMax) :
    (∀ s t : Fin n, ∃ r, g.Returns s t r) ∧
    (∀ (s t : Fin n) (d : Nat), g.Returns s t (.ok d) ↔ (physical n edges).edist s t = d) ∧
    (∀ s t : Fin n, g.Returns s t (.error (.noPath s t)) ↔ ¬ (physical n edges).Reachable s t) ∧
    (∀ s : Fin n, ∃ dists, g.bfsDistances s = .ok dists ∧
      ∀ t : Fin n, (∃ label, dists[t.val]? = some label) ∧
        ∀ d, dists[t.val]? = some (some d) ↔ g.Returns s t (.ok d)) ∧
    (∀ (s t : Fin n) (d : Nat), g.Returns s t (.ok d) ↔ g.Returns t s (.ok d)) ∧
    (∀ (s t u : Fin n) (d e : Nat), g.Returns s t (.ok d) → g.Returns t u (.ok e) →
      ∃ f, f ≤ d + e ∧ g.Returns s u (.ok f)) := by
  obtain ⟨hvalid, rfl, -, -⟩ := of_fromEdges h
  have hok := fun u v => (returns_iff hvalid hmax u v).1
  have herror := fun u v => (returns_iff hvalid hmax u v).2
  rw [← simple_eq_physical h]
  refine ⟨fun s t => ?_, hok, fun s t => ?_, fun s => ?_, fun s t d => ?_,
    fun s t u d e hd he => ?_⟩
  · exact ⟨_, g.numNodes + 1, fun turns hturns =>
      topologicalDistance_eq hvalid hmax s t (Nat.lt_of_succ_le hturns)⟩
  · rw [herror, ← SimpleGraph.edist_ne_top_iff_reachable, not_not]
  · refine ⟨_, by rw [bfsDistances, validateNode, if_neg (Nat.not_le_of_lt s.isLt)], fun t => ?_⟩
    have hlt : t.val < (g.bfsLoop ((List.replicate g.numNodes none).set s (some 0))
        [s.val]).length := by
      rw [length_bfsLoop, List.length_set, List.length_replicate]
      exact t.isLt
    refine ⟨⟨_, List.getElem?_eq_getElem hlt⟩, fun d => ?_⟩
    rw [hok, ← labelOf_bfs_iff hvalid, labelOf, List.getD_eq_getElem?_getD,
      List.getElem?_eq_getElem hlt, Option.some.injEq, Option.getD_some]
  · rw [hok, hok, SimpleGraph.edist_comm]
  · have htriangle : g.simple.edist s u ≤ g.simple.edist s t + g.simple.edist t u :=
      SimpleGraph.edist_triangle
    rw [(hok s t d).mp hd, (hok t u e).mp he, ← Nat.cast_add] at htriangle
    obtain ⟨f, hf, hle⟩ := ENat.le_natCast_iff.mp htriangle
    exact ⟨f, hle, (hok s u f).mpr hf⟩

/-- A path of three nodes, and one apart. -/
theorem distances_of_fromEdges_path :
    ∃ g, fromEdges 4 [(0, 1), (1, 2), (2, 1)] = .ok g ∧ g.Returns 0 2 (.ok 2) ∧
      g.Returns 2 0 (.ok 2) := by
  have h : fromEdges 4 [(0, 1), (1, 2), (2, 1)] =
      .ok { numNodes := 4, adjacency := [[1], [0, 2], [1], []] } := rfl
  obtain ⟨-, -, -, -, hsymm, -⟩ := distances_of_fromEdges h (by decide)
  have hreturns : Returns { numNodes := 4, adjacency := [[1], [0, 2], [1], []] } 0 2 (.ok 2) := by
    refine ⟨5, fun turns hturns => ?_⟩
    obtain ⟨more, rfl⟩ := Nat.exists_eq_add_of_le' hturns
    rfl
  exact ⟨_, h, hreturns, (hsymm 0 2 2).mp hreturns⟩

end ActiveDefense.Spectral.Graph
