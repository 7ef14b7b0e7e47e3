import Mathlib.Data.List.Basic

/-!
# Searches that take the nearest candidate

A search goes through a list of links. Each link offers, from the state reached so far, candidates
in order of preference. `Completable` is what a search with backtracking decides: some choice of
candidates gets to the end. `nearest` takes the first candidate of every link and never goes back.
`nearest_isSome_iff` says on which completable searches it succeeds.
-/

namespace ActiveDefense

variable {σ : Type}

/-- A link of a search: the candidates for the next state, nearest first. -/
abbrev Link (σ : Type) := σ → List σ

/-- Some choice of candidates completes the search. -/
def Completable : List (Link σ) → σ → Prop
  | [], _ => True
  | f :: fs, x => ∃ y ∈ f x, Completable fs y

/-- The search that takes the nearest candidate of every link: the last state. -/
def nearest : List (Link σ) → σ → Option σ
  | [], x => some x
  | f :: fs, x => (f x).head?.bind (nearest fs)

/-- On the way of `nearest`, no nearest candidate is a dead end while another candidate of its link
can be completed. -/
def NearestSuffices : List (Link σ) → σ → Prop
  | [], _ => True
  | f :: fs, x =>
    ∀ y ∈ (f x).head?,
      ((∃ z ∈ f x, Completable fs z) → Completable fs y) ∧ NearestSuffices fs y

instance instDecidableCompletable : ∀ (fs : List (Link σ)) (x : σ), Decidable (Completable fs x)
  | [], _ => .isTrue trivial
  | f :: fs, x =>
    haveI := instDecidableCompletable fs
    inferInstanceAs (Decidable (∃ y ∈ f x, Completable fs y))

instance instDecidableNearestSuffices :
    ∀ (fs : List (Link σ)) (x : σ), Decidable (NearestSuffices fs x)
  | [], _ => .isTrue trivial
  | f :: fs, x =>
    haveI := instDecidableNearestSuffices fs
    inferInstanceAs (Decidable (∀ y ∈ (f x).head?,
      ((∃ z ∈ f x, Completable fs z) → Completable fs y) ∧ NearestSuffices fs y))

/-- The first step of a search that succeeds. -/
theorem exists_of_nearest_cons {f : Link σ} {fs : List (Link σ)} {x z : σ}
    (h : nearest (f :: fs) x = some z) : ∃ y ∈ f x, nearest fs y = some z := by
  obtain ⟨y, hy, hrest⟩ := Option.bind_eq_some_iff.mp h
  exact ⟨y, List.mem_of_mem_head? hy, hrest⟩

/-- What `nearest` finds is a completion. -/
theorem completable_of_nearest {fs : List (Link σ)} {x : σ} (h : (nearest fs x).isSome) :
    Completable fs x := by
  induction fs generalizing x with
  | nil => trivial
  | cons f fs ih =>
    rw [nearest] at h
    cases hy : (f x).head? with
    | none => simp [hy] at h
    | some y =>
      rw [hy] at h
      exact ⟨y, List.mem_of_mem_head? hy, ih h⟩

/-- On a search that can be completed, `nearest` succeeds exactly when no nearest candidate on its
way is a dead end that another candidate would have avoided. -/
theorem nearest_isSome_iff {fs : List (Link σ)} {x : σ} (hc : Completable fs x) :
    (nearest fs x).isSome ↔ NearestSuffices fs x := by
  induction fs generalizing x with
  | nil => simp [nearest, NearestSuffices]
  | cons f fs ih =>
    obtain ⟨z, hz, hcz⟩ := hc
    obtain ⟨y, hy⟩ : ∃ y, (f x).head? = some y := by
      cases hf : f x with
      | nil => simp [hf] at hz
      | cons y ys => exact ⟨y, rfl⟩
    simp only [nearest, NearestSuffices, hy, Option.bind_some, Option.mem_some_iff, forall_eq']
    constructor
    · intro h
      have hcy := completable_of_nearest h
      exact ⟨fun _ => hcy, (ih hcy).mp h⟩
    · rintro ⟨hdead, hrest⟩
      exact (ih (hdead ⟨z, hz, hcz⟩)).mpr hrest

/-- Where `r x y` lets `x` stand in for `y` on every link, a search that can be completed from `y`
can be completed from `x`. -/
theorem Completable.of_rel {r : σ → σ → Prop} {fs : List (Link σ)} {x y : σ}
    (hexchange : ∀ f ∈ fs, ∀ a b, r a b → ∀ z ∈ f b, ∃ z' ∈ f a, r z' z) (hr : r x y)
    (hc : Completable fs y) : Completable fs x := by
  induction fs generalizing x y with
  | nil => trivial
  | cons f fs ih =>
    obtain ⟨z, hz, hcz⟩ := hc
    obtain ⟨z', hz', hrz⟩ := hexchange f (.head _) x y hr z hz
    exact ⟨z', hz', ih (fun g hg => hexchange g (List.mem_cons_of_mem _ hg)) hrz hcz⟩

/-- The exchange argument: where the nearest candidate can stand in for every other one on the
links that follow, the nearest candidates suffice. -/
theorem nearestSuffices_of_exchange {r : σ → σ → Prop} {fs : List (Link σ)}
    (hnearest : ∀ f ∈ fs, ∀ x, ∀ y ∈ (f x).head?, ∀ z ∈ f x, r y z)
    (hexchange : ∀ f ∈ fs.tail, ∀ a b, r a b → ∀ z ∈ f b, ∃ z' ∈ f a, r z' z) (x : σ) :
    NearestSuffices fs x := by
  induction fs generalizing x with
  | nil => trivial
  | cons f fs ih =>
    intro y hy
    refine ⟨?_, ih (fun g hg => hnearest g (List.mem_cons_of_mem _ hg))
      (fun g hg => hexchange g (List.mem_of_mem_tail hg)) y⟩
    rintro ⟨z, hz, hcz⟩
    exact hcz.of_rel hexchange (hnearest f (.head _) x y hy z hz)

end ActiveDefense
