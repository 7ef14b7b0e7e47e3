import ActiveDefense.Lib.Bfs
import ActiveDefense.Rust.Text
import Mathlib.Data.Finset.Basic

/-!
# The blast radius of an entity

`trace_bfs_blast_radius` searches level by level, from the seed, through the flows that the vector
store holds. It asks the store once for the flows of each host, for at most 100 of them, and does
not ask for the rest (`query_and_evaluate` pages through its scroll). So it finds what is reached by
the flows of those first pages (`coe_trace`), which is everything that is reached if no host on the
way has more than 100 flows, and may be less otherwise (`not_trace_exact`).
-/

namespace ActiveDefense.Spectral

/-- What the search reads of a stored point: the entities of the flow. -/
structure FlowPoint where
  src : Str
  dst : Str
deriving DecidableEq

/-- The vector store's scroll: of the points that match it gives so many at most, in some order. -/
structure Scroll where
  run : List FlowPoint → Nat → List FlowPoint
  subperm : ∀ found limit, (run found limit).Subperm found
  length_eq : ∀ found limit, (run found limit).length = min limit found.length

/-- The answer to the scroll with the filter on `src`. -/
def Scroll.page (scroll : Scroll) (points : List FlowPoint) (cur : Str) : List FlowPoint :=
  scroll.run (points.filter fun pt => pt.src = cur) 100

/-- A turn of the innermost loop: `visited.insert` and `next.push`. -/
def visit (state : Finset Str × List Str) (pt : FlowPoint) : Finset Str × List Str :=
  if pt.dst ∈ state.1 then state else (insert pt.dst state.1, state.2 ++ [pt.dst])

/-- The outer loop of `trace_bfs_blast_radius`, for so many levels. -/
def traceLoop (page : Str → List FlowPoint) : Nat → Finset Str → List Str → Finset Str
  | 0, visited, _ => visited
  | depth + 1, visited, frontier =>
    if frontier.isEmpty then visited
    else
      let state := frontier.foldl (fun state cur => (page cur).foldl visit state) (visited, [])
      traceLoop page depth state.1 state.2

/-- `trace_bfs_blast_radius`. -/
def traceBfsBlastRadius (scroll : Scroll) (points : List FlowPoint) (seed : Str)
    (maxDepth : Nat) : Finset Str :=
  traceLoop (scroll.page points) maxDepth {seed} [seed]

/-! ## Edges -/

/-- A stored edge. -/
def Flow (points : List FlowPoint) (u v : Str) : Prop := ∃ pt ∈ points, pt.src = u ∧ pt.dst = v

/-- An edge that stands on the page of its source. -/
def OnPage (page : Str → List FlowPoint) (u v : Str) : Prop := ∃ pt ∈ page u, pt.dst = v

variable {scroll : Scroll} {points : List FlowPoint} {page : Str → List FlowPoint}
  {visited : Finset Str} {frontier : List Str} {seed : Str} {depth maxDepth : Nat}

theorem Scroll.mem_page {u : Str} {pt : FlowPoint} (h : pt ∈ scroll.page points u) :
    pt ∈ points ∧ pt.src = u := by
  have hmem := (scroll.subperm _ 100).subset h
  simpa using List.mem_filter.mp hmem

theorem flow_of_onPage {u v : Str} (h : OnPage (scroll.page points) u v) : Flow points u v := by
  obtain ⟨pt, hpt, rfl⟩ := h
  obtain ⟨hmem, hsrc⟩ := Scroll.mem_page hpt
  exact ⟨pt, hmem, hsrc, rfl⟩

/-- The page of a host without more than 100 flows has them all. -/
theorem onPage_of_flow {u v : Str} (hfew : (points.filter fun pt => pt.src = u).length ≤ 100)
    (h : Flow points u v) : OnPage (scroll.page points) u v := by
  obtain ⟨pt, hpt, hsrc, rfl⟩ := h
  refine ⟨pt, ?_, rfl⟩
  have hlen : (scroll.page points u).length = (points.filter fun pt => pt.src = u).length := by
    rw [Scroll.page, scroll.length_eq, Nat.min_eq_right hfew]
  have hperm := (scroll.subperm _ 100).perm_of_length_le (Nat.le_of_eq hlen.symm)
  exact hperm.mem_iff.mpr (List.mem_filter.mpr ⟨hpt, by simpa using hsrc⟩)

/-! ## A level -/

/-- What the loops of a level have done when they have seen the destinations `seen`. -/
structure Scanned (visited : Finset Str) (seen : Set Str) (state : Finset Str × List Str) :
    Prop where
  visited_iff : ∀ v, v ∈ state.1 ↔ v ∈ visited ∨ v ∈ seen
  next_iff : ∀ v, v ∈ state.2 ↔ v ∉ visited ∧ v ∈ seen

theorem Scanned.visit {seen : Set Str} {state : Finset Str × List Str}
    (h : Scanned visited seen state) (pt : FlowPoint) :
    Scanned visited (insert pt.dst seen) (visit state pt) := by
  rw [Spectral.visit]
  split
  · rename_i hmem
    have hold := (h.visited_iff pt.dst).mp hmem
    refine ⟨fun v => ?_, fun v => ?_⟩
    · rw [h.visited_iff, Set.mem_insert_iff]
      grind
    · rw [h.next_iff, Set.mem_insert_iff]
      grind
  · rename_i hmem
    have hnew := (h.visited_iff pt.dst).not.mp hmem
    refine ⟨fun v => ?_, fun v => ?_⟩
    · rw [Finset.mem_insert, h.visited_iff, Set.mem_insert_iff]
      grind
    · rw [List.mem_append, List.mem_singleton, h.next_iff, Set.mem_insert_iff]
      grind

theorem Scanned.foldl_visit {seen : Set Str} {state : Finset Str × List Str}
    (h : Scanned visited seen state) (pts : List FlowPoint) :
    Scanned visited (seen ∪ {v | ∃ pt ∈ pts, pt.dst = v}) (pts.foldl Spectral.visit state) := by
  induction pts generalizing seen state with
  | nil => simpa using h
  | cons pt pts ih =>
    have hrest := ih (h.visit pt)
    rw [List.foldl_cons]
    convert hrest using 1
    ext v
    simp only [Set.mem_union, Set.mem_insert_iff, Set.mem_ofPred_eq, List.exists_mem_cons_iff]
    grind

theorem scanned_level (page : Str → List FlowPoint) (visited : Finset Str) (frontier : List Str) :
    Scanned visited {v | ∃ u ∈ frontier, OnPage page u v}
      (frontier.foldl (fun state cur => (page cur).foldl visit state) (visited, [])) := by
  have hall : ∀ (frontier : List Str) (seen : Set Str) (state : Finset Str × List Str),
      Scanned visited seen state →
        Scanned visited (seen ∪ {v | ∃ u ∈ frontier, OnPage page u v})
          (frontier.foldl (fun state cur => (page cur).foldl visit state) state) := by
    intro frontier
    induction frontier with
    | nil =>
      intro seen state h
      simpa using h
    | cons cur frontier ih =>
      intro seen state h
      have hrest := ih _ _ (h.foldl_visit (page cur))
      rw [List.foldl_cons]
      convert hrest using 1
      ext v
      simp only [Set.mem_union, Set.mem_ofPred_eq, List.exists_mem_cons_iff, OnPage]
      grind
  have hstart : Scanned visited ∅ (visited, []) := ⟨by simp, by simp⟩
  simpa using hall frontier ∅ (visited, []) hstart

/-! ## The search -/

/-- The loop goes on with the search by level along the pages. -/
theorem coe_traceLoop {d : Nat} (hsub : ∀ v ∈ frontier, v ∈ visited)
    (h : Levels (OnPage page) seed d (visited : Set Str) {v | v ∈ frontier}) :
    (traceLoop page depth visited frontier : Set Str) = inReach (OnPage page) seed (d + depth) := by
  induction depth generalizing visited frontier d with
  | zero => exact h.visited_eq
  | succ depth ih =>
    rw [traceLoop]
    split
    · rename_i hempty
      rw [List.isEmpty_iff] at hempty
      subst hempty
      have hnone : ({v | v ∈ ([] : List Str)} : Set Str) = ∅ := by simp
      rw [hnone] at h
      exact h.eq_inReach (Nat.le_add_right d _)
    · have hscan := scanned_level page visited frontier
      have hnext : ∀ v, v ∈ {v | v ∉ visited ∧ ∃ u ∈ frontier, OnPage page u v} ↔
          v ∉ (visited : Set Str) ∧ ∃ u ∈ {v | v ∈ frontier}, OnPage page u v := by
        intro v
        simp
      have hstep := h.step hsub hnext
      rw [Nat.add_comm depth 1, ← Nat.add_assoc]
      refine ih (fun v hv => ?_) ?_
      · exact (hscan.visited_iff v).mpr (.inr ((hscan.next_iff v).mp hv).2)
      · convert hstep using 1
        · ext v
          simp only [Finset.mem_coe, hscan.visited_iff, Set.mem_union, Set.mem_ofPred_eq]
          grind
        · ext v
          simp only [Set.mem_ofPred_eq, hscan.next_iff]

/-- The search finds what is reached along the edges on the pages. -/
theorem coe_trace : (traceBfsBlastRadius scroll points seed maxDepth : Set Str) =
    inReach (OnPage (scroll.page points)) seed maxDepth := by
  have hstart : Levels (OnPage (scroll.page points)) seed 0 (({seed} : Finset Str) : Set Str)
      {v | v ∈ [seed]} := by
    have hone : ({v | v ∈ [seed]} : Set Str) = {seed} := by
      ext v
      simp
    rw [hone, Finset.coe_singleton]
    exact levels_start
  have hloop : (traceBfsBlastRadius scroll points seed maxDepth : Set Str) =
      inReach (OnPage (scroll.page points)) seed (0 + maxDepth) :=
    coe_traceLoop (by simp) hstart
  rwa [Nat.zero_add] at hloop

/-- The search finds exactly what is reached by at most so many stored edges. -/
def Exact (scroll : Scroll) (points : List FlowPoint) (seed : Str) (maxDepth : Nat) : Prop :=
  (traceBfsBlastRadius scroll points seed maxDepth : Set Str) =
    inReach (Flow points) seed maxDepth

/-- Where no host on the way has more than 100 flows, the stored edges lead nowhere that the pages
do not lead. -/
theorem inReach_of_few (hfew : ∀ u k, k < maxDepth → Hops (Flow points) seed k u →
      (points.filter fun pt => pt.src = u).length ≤ 100) :
    inReach (Flow points) seed maxDepth ⊆ inReach (OnPage (scroll.page points)) seed maxDepth := by
  rintro v ⟨k, hk, hhops⟩
  refine ⟨k, hk, ?_⟩
  induction hhops with
  | start => exact .start
  | @step k u v hhops huv ih =>
    exact .step (ih (Nat.le_of_succ_le hk)) (onPage_of_flow (hfew u k hk hhops) huv)

/-- The search is exact if and only if each entity within so many stored edges of the seed is within
as many of those on the first pages of their sources; so it is where no host that fewer edges reach
has more flows than a page. -/
theorem trace_exact_iff (scroll : Scroll) (points : List FlowPoint) (seed : Str) (maxDepth : Nat) :
    (Exact scroll points seed maxDepth ↔
      ∀ v ∈ inReach (Flow points) seed maxDepth,
        v ∈ inReach (OnPage (scroll.page points)) seed maxDepth) ∧
    ((∀ u k, k < maxDepth → Hops (Flow points) seed k u →
      (points.filter fun pt => pt.src = u).length ≤ 100) → Exact scroll points seed maxDepth) := by
  have hsound : inReach (OnPage (scroll.page points)) seed maxDepth ⊆
      inReach (Flow points) seed maxDepth := inReach_mono fun u v => flow_of_onPage
  rw [Exact, coe_trace]
  refine ⟨⟨fun heq v hv => ?_, fun hsub => ?_⟩, fun hfew => ?_⟩
  · rwa [heq]
  · exact hsound.antisymm hsub
  · exact hsound.antisymm (inReach_of_few hfew)

/-- The scroll that gives the first of the points that match. -/
def firstPoints : Scroll where
  run found limit := found.take limit
  subperm found limit := (List.take_sublist limit found).subperm
  length_eq _ _ := List.length_take

/-- A host with 101 flows, the last of which is to another host than the others. -/
def crowded : List FlowPoint :=
  List.replicate 100 { src := ['a'], dst := ['b'] } ++ [{ src := ['a'], dst := ['c'] }]

/-- The search does not find every host that a flow reaches. -/
theorem not_trace_exact :
    ¬ ∀ (scroll : Scroll) points seed maxDepth, Exact scroll points seed maxDepth := by
  intro h
  have hc : ['c'] ∈ inReach (Flow crowded) ['a'] 1 := by
    refine ⟨1, Nat.le_refl 1, .step .start ⟨{ src := ['a'], dst := ['c'] }, ?_, rfl, rfl⟩⟩
    exact List.mem_append_right _ (List.mem_singleton_self _)
  have hexact := h firstPoints crowded ['a'] 1
  rw [Exact, coe_trace] at hexact
  rw [← hexact] at hc
  obtain ⟨k, hk, hhops⟩ := hc
  cases hhops with
  | @step k u v hhops hpage =>
    obtain rfl : k = 0 := Nat.le_zero.mp (Nat.le_of_succ_le_succ hk)
    cases hhops
    obtain ⟨pt, hpt, hdst⟩ := hpage
    have hfirst : firstPoints.page crowded ['a'] =
        List.replicate 100 { src := ['a'], dst := ['b'] } := rfl
    rw [hfirst] at hpt
    obtain ⟨-, rfl⟩ := List.mem_replicate.mp hpt
    exact absurd hdst (by decide)

end ActiveDefense.Spectral
