import Mathlib.Combinatorics.SimpleGraph.Metric

/-!
# Breadth-first search

A search labels what it finds with the number of steps it took (`Hops`). A search by queue takes
the first of the queue and looks at each step from it: what has no label yet is labelled and put at
the end of the queue. `Search` is what holds between two looks, from the start
(`search_start`) to the empty queue, where the labels are the shortest distances
(`Search.label_iff`). A search by level keeps the set of what it found and the part of it that it
found last; `Levels` is what holds between two levels.
-/

namespace ActiveDefense

variable {V : Type*} {R : V → V → Prop} {s t u v w : V}

/-- So many steps lead from `s` to a place. -/
inductive Hops (R : V → V → Prop) (s : V) : ℕ → V → Prop
  | start : Hops R s 0 s
  | step {k : ℕ} {u v : V} : Hops R s k u → R u v → Hops R s (k + 1) v

/-- The steps of a graph are its walks. -/
theorem hops_adj_iff {G : SimpleGraph V} {k : ℕ} :
    Hops G.Adj s k t ↔ ∃ p : G.Walk s t, p.length = k := by
  constructor
  · intro h
    induction h with
    | start => exact ⟨.nil, rfl⟩
    | step _ hadj ih =>
      obtain ⟨p, rfl⟩ := ih
      exact ⟨p.concat hadj, p.length_concat hadj⟩
  · rintro ⟨p, rfl⟩
    induction p using SimpleGraph.Walk.concatRec with
    | Hnil => exact .start
    | Hconcat p hadj ih =>
      rw [SimpleGraph.Walk.length_concat]
      exact .step ih hadj

/-- The label that a place has is the least number of steps to it. -/
def Shortest (R : V → V → Prop) (s t : V) (k : ℕ) : Prop :=
  Hops R s k t ∧ ∀ j, Hops R s j t → k ≤ j

theorem shortest_adj_iff {G : SimpleGraph V} {k : ℕ} :
    Shortest G.Adj s t k ↔ G.edist s t = k := by
  simp only [Shortest, hops_adj_iff]
  constructor
  · rintro ⟨⟨p, rfl⟩, hmin⟩
    obtain ⟨q, hq⟩ := p.reachable.exists_walk_length_eq_edist
    refine le_antisymm (SimpleGraph.edist_le p) ?_
    rw [← hq]
    exact Nat.cast_le.mpr (hmin _ ⟨q, rfl⟩)
  · intro h
    refine ⟨SimpleGraph.exists_walk_of_edist_eq_coe h, ?_⟩
    rintro _ ⟨q, rfl⟩
    have hle : G.edist s t ≤ q.length := SimpleGraph.edist_le q
    rw [h] at hle
    exact Nat.cast_le.mp hle

/-! ## By queue -/

section
variable {dist : V → Option ℕ} {d : ℕ} {queue : List V} {todo : List (V × V)}

/-- What holds while a search by queue looks at the steps from places at distance `d`: `todo` are
the steps that it has not looked at, from the places that it took from the queue. -/
structure Search (R : V → V → Prop) (s : V) (dist : V → Option ℕ) (d : ℕ) (queue : List V)
    (todo : List (V × V)) : Prop where
  origin : dist s = some 0
  sound : ∀ v k, dist v = some k → Hops R s k v ∧ k ≤ d + 1
  queued : ∀ v ∈ queue, ∃ k, dist v = some k ∧ d ≤ k
  sorted : queue.Pairwise fun u v => ∀ j k, dist u = some j → dist v = some k → j ≤ k
  looked : ∀ u v k, dist u = some k → R u v → u ∉ queue → (u, v) ∉ todo →
    ∃ j, dist v = some j ∧ j ≤ k + 1

variable [DecidableEq V]

/-- At the start. -/
theorem search_start : Search R s (Function.update (fun _ => none) s (some 0)) 0 [s] [] where
  origin := Function.update_self ..
  sound v k h := by
    by_cases hv : v = s
    · subst hv
      rw [Function.update_self] at h
      cases h
      exact ⟨.start, Nat.zero_le _⟩
    · rw [Function.update_of_ne hv] at h
      cases h
  queued v hv := by
    obtain rfl := List.mem_singleton.mp hv
    exact ⟨0, Function.update_self .., Nat.le_refl 0⟩
  sorted := List.pairwise_singleton ..
  looked u v k hu _ hnot _ := by
    rw [Function.update_of_ne (by simpa using hnot)] at hu
    cases hu

omit [DecidableEq V] in
/-- The first of the queue is taken, and all steps from it are to be looked at. -/
theorem Search.take {c : V} {steps : List V} (h : Search R s dist d (c :: queue) [])
    (hsteps : ∀ v, R c v → v ∈ steps) :
    ∃ k, dist c = some k ∧ Search R s dist k queue (steps.map fun v => (c, v)) := by
  obtain ⟨k, hk, hdk⟩ := h.queued c (.head _)
  obtain ⟨hfirst, hsorted⟩ := List.pairwise_cons.mp h.sorted
  refine ⟨k, hk, h.origin, fun v j hv => ?_, fun v hv => ?_, hsorted, ?_⟩
  · obtain ⟨hhops, hle⟩ := h.sound v j hv
    exact ⟨hhops, hle.trans (Nat.succ_le_succ hdk)⟩
  · obtain ⟨j, hj, -⟩ := h.queued v (.tail _ hv)
    exact ⟨j, hj, hfirst v hv k j hk hj⟩
  · intro u v j hu huv hnot htodo
    refine h.looked u v j hu huv (fun hmem => ?_) (List.not_mem_nil)
    rcases List.mem_cons.mp hmem with rfl | hmem
    · exact htodo (List.mem_map_of_mem (hsteps v huv))
    · exact hnot hmem

/-- A look at a place that has a label. -/
theorem Search.pass {c : V} {k : ℕ} (h : Search R s dist d queue ((c, w) :: todo))
    (hc : dist c = some d) (hw : dist w = some k) : Search R s dist d queue todo where
  origin := h.origin
  sound := h.sound
  queued := h.queued
  sorted := h.sorted
  looked u v j hu huv hnot htodo := by
    by_cases heq : (u, v) = (c, w)
    · obtain ⟨rfl, rfl⟩ := Prod.mk.inj heq
      obtain rfl : d = j := Option.some.inj (hc.symm.trans hu)
      exact ⟨k, hw, (h.sound v k hw).2⟩
    · exact h.looked u v j hu huv hnot (by simp [heq, htodo])

/-- A look at a place that has no label. -/
theorem Search.label {c : V} (h : Search R s dist d queue ((c, w) :: todo))
    (hc : dist c = some d) (hcw : R c w) (hw : dist w = none) :
    Search R s (Function.update dist w (some (d + 1))) d (queue ++ [w]) todo := by
  have hold : ∀ {v k}, dist v = some k →
      Function.update dist w (some (d + 1)) v = some k := by
    intro v k hv
    rw [Function.update_of_ne ?_, hv]
    rintro rfl
    rw [hw] at hv
    cases hv
  have hcases : ∀ {v k}, Function.update dist w (some (d + 1)) v = some k →
      (v = w ∧ k = d + 1) ∨ dist v = some k := by
    intro v k hv
    by_cases hvw : v = w
    · subst hvw
      rw [Function.update_self] at hv
      exact .inl ⟨rfl, (Option.some.inj hv).symm⟩
    · rw [Function.update_of_ne hvw] at hv
      exact .inr hv
  refine ⟨hold h.origin, fun v k hv => ?_, fun v hv => ?_, ?_, ?_⟩
  · rcases hcases hv with ⟨rfl, rfl⟩ | hv
    · exact ⟨.step (h.sound c d hc).1 hcw, Nat.le_refl _⟩
    · exact h.sound v k hv
  · rcases List.mem_append.mp hv with hv | hv
    · obtain ⟨k, hk, hdk⟩ := h.queued v hv
      exact ⟨k, hold hk, hdk⟩
    · obtain rfl := List.mem_singleton.mp hv
      exact ⟨d + 1, Function.update_self .., Nat.le_succ d⟩
  · refine List.pairwise_append.mpr ⟨h.sorted.imp_of_mem ?_, List.pairwise_singleton .., ?_⟩
    · intro u v hu hv hle j k hj hk
      obtain ⟨j', hj', -⟩ := h.queued u hu
      obtain ⟨k', hk', -⟩ := h.queued v hv
      rw [hold hj'] at hj
      rw [hold hk'] at hk
      exact hle j k (hj ▸ hj') (hk ▸ hk')
    · intro u hu v hv j k hj hk
      obtain rfl := List.mem_singleton.mp hv
      obtain ⟨j', hj', -⟩ := h.queued u hu
      rw [hold hj'] at hj
      rw [Function.update_self] at hk
      cases hk
      exact (h.sound u j (hj ▸ hj')).2
  · intro u v k hu huv hnot htodo
    rw [List.mem_append, not_or] at hnot
    rcases hcases hu with ⟨rfl, -⟩ | hlabel
    · exact absurd (List.mem_singleton_self _) hnot.2
    · by_cases heq : (u, v) = (c, w)
      · obtain ⟨rfl, rfl⟩ := Prod.mk.inj heq
        obtain rfl : d = k := Option.some.inj (hc.symm.trans hlabel)
        exact ⟨d + 1, Function.update_self .., Nat.le_refl _⟩
      · obtain ⟨j, hj, hle⟩ := h.looked u v k hlabel huv hnot.1 (by simp [heq, htodo])
        exact ⟨j, hold hj, hle⟩

omit [DecidableEq V] in
/-- When the queue is empty, the label of a place is its distance. -/
theorem Search.label_iff (h : Search R s dist d [] []) {k : ℕ} :
    dist t = some k ↔ Shortest R s t k := by
  have hbound : ∀ j v, Hops R s j v → ∃ i, dist v = some i ∧ i ≤ j := by
    intro j v hj
    induction hj with
    | start => exact ⟨0, h.origin, Nat.le_refl 0⟩
    | @step j u v _ huv ih =>
      obtain ⟨i, hi, hle⟩ := ih
      obtain ⟨i', hi', hle'⟩ := h.looked u v i hi huv List.not_mem_nil List.not_mem_nil
      exact ⟨i', hi', hle'.trans (Nat.succ_le_succ hle)⟩
  constructor
  · intro hk
    refine ⟨(h.sound t k hk).1, fun j hj => ?_⟩
    obtain ⟨i, hi, hle⟩ := hbound j t hj
    obtain rfl : k = i := Option.some.inj (hk.symm.trans hi)
    exact hle
  · rintro ⟨hhops, hmin⟩
    obtain ⟨i, hi, hle⟩ := hbound k t hhops
    obtain rfl : k = i := le_antisymm (hmin i (h.sound t i hi).1) hle
    exact hi

end

/-! ## By level -/

section
variable {d : ℕ} {visited frontier next : Set V}

/-- What is reached by at most so many steps. -/
def inReach (R : V → V → Prop) (s : V) (d : ℕ) : Set V := {v | ∃ k, k ≤ d ∧ Hops R s k v}

/-- What a search by level has found after `d` levels, and the part found at the last one. -/
structure Levels (R : V → V → Prop) (s : V) (d : ℕ) (visited frontier : Set V) : Prop where
  visited_eq : visited = inReach R s d
  behind : ∀ u ∈ visited, u ∉ frontier → ∀ v, R u v → v ∈ visited

theorem levels_start : Levels R s 0 {s} {s} where
  visited_eq := by
    ext v
    constructor
    · rintro rfl
      exact ⟨0, Nat.le_refl 0, .start⟩
    · rintro ⟨k, hk, hhops⟩
      obtain rfl : k = 0 := Nat.le_zero.mp hk
      cases hhops
      rfl
  behind u hu hnot := absurd hu hnot

/-- A level adds the steps from the last one's places. -/
theorem Levels.step (h : Levels R s d visited frontier) (hsub : frontier ⊆ visited)
    (hnext : ∀ v, v ∈ next ↔ v ∉ visited ∧ ∃ u ∈ frontier, R u v) :
    Levels R s (d + 1) (visited ∪ next) next := by
  have hsteps : ∀ u ∈ visited, ∀ v, R u v → v ∈ visited ∪ next := by
    intro u hu v huv
    by_cases hv : v ∈ visited
    · exact .inl hv
    · by_cases hfront : u ∈ frontier
      · exact .inr ((hnext v).mpr ⟨hv, u, hfront, huv⟩)
      · exact .inl (h.behind u hu hfront v huv)
  refine ⟨?_, fun u hu hnot => hsteps u (hu.resolve_right hnot)⟩
  ext v
  constructor
  · rintro (hv | hv)
    · rw [h.visited_eq] at hv
      obtain ⟨k, hk, hhops⟩ := hv
      exact ⟨k, Nat.le_succ_of_le hk, hhops⟩
    · obtain ⟨-, u, hu, huv⟩ := (hnext v).mp hv
      have hu' : u ∈ inReach R s d := h.visited_eq ▸ hsub hu
      obtain ⟨k, hk, hhops⟩ := hu'
      exact ⟨k + 1, Nat.succ_le_succ hk, .step hhops huv⟩
  · rintro ⟨k, hk, hhops⟩
    cases hhops with
    | start =>
      have hs : s ∈ inReach R s d := ⟨0, Nat.zero_le d, .start⟩
      exact .inl (h.visited_eq ▸ hs)
    | @step k u v hhops huv =>
      have hu : u ∈ inReach R s d := ⟨k, Nat.le_of_succ_le_succ hk, hhops⟩
      exact hsteps u (h.visited_eq ▸ hu) v huv

/-- Without a last level, more steps reach nothing more. -/
theorem Levels.eq_inReach (h : Levels R s d visited ∅) {e : ℕ} (hle : d ≤ e) :
    visited = inReach R s e := by
  ext v
  constructor
  · intro hv
    rw [h.visited_eq] at hv
    obtain ⟨k, hk, hhops⟩ := hv
    exact ⟨k, hk.trans hle, hhops⟩
  · rintro ⟨k, -, hhops⟩
    induction hhops with
    | start =>
      rw [h.visited_eq]
      exact ⟨0, Nat.zero_le d, .start⟩
    | @step k u v _ huv ih => exact h.behind u ih (Set.notMem_empty u) v huv

/-- More steps reach more. -/
theorem inReach_mono {R' : V → V → Prop} (h : ∀ u v, R u v → R' u v) :
    inReach R s d ⊆ inReach R' s d := by
  rintro v ⟨k, hk, hhops⟩
  refine ⟨k, hk, ?_⟩
  clear hk
  induction hhops with
  | start => exact .start
  | step _ huv ih => exact .step ih (h _ _ huv)

end

end ActiveDefense
