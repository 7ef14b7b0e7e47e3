/-!
# Runs of a labelled transition system

A system is a relation `step s a t`: in state `s` the labelled action `a` leads to `t`. Whatever
the environment chooses (a clock reading, an input, which party moves) is part of the label, so a
`Run` is one interleaving, and a statement about every `Run` is one about every interleaving. The
predicate `ok` restricts a run to actions that meet a condition in the state they are taken in;
`Reachable` is the unrestricted case.
-/

namespace ActiveDefense

universe u v

variable {σ : Type u} {α : Type v} {step : σ → α → σ → Prop} {ok : σ → α → Prop} {s t : σ}

/-- A run of `step` from `s`: its actions in order, each of which met `ok` in the state it was
taken in, and the state after them. -/
inductive Run (step : σ → α → σ → Prop) (ok : σ → α → Prop) (s : σ) : List α → σ → Prop
  | nil : Run step ok s [] s
  | snoc {as : List α} {a : α} {t u : σ} :
      Run step ok s as t → ok t a → step t a u → Run step ok s (as ++ [a]) u

/-- The states some run from `s` ends in. -/
def Reachable (step : σ → α → σ → Prop) (s t : σ) : Prop :=
  ∃ as, Run step (fun _ _ => True) s as t

/-- What holds at the start and is kept by every action that meets `ok` holds after every run. -/
theorem Run.invariant {I : σ → Prop} {as : List α} (h : Run step ok s as t) (hs : I s)
    (hstep : ∀ t a u, I t → ok t a → step t a u → I u) : I t := by
  induction h with
  | nil => exact hs
  | snoc _ hok hst ih => exact hstep _ _ _ ih hok hst

/-- An invariant of single steps holds in every reachable state. -/
theorem Reachable.invariant {I : σ → Prop} (h : Reachable step s t) (hs : I s)
    (hstep : ∀ t a u, I t → step t a u → I u) : I t := by
  obtain ⟨as, hr⟩ := h
  exact hr.invariant hs fun t a u hI _ hst => hstep t a u hI hst

/-- A run of one action. -/
theorem Run.single {a : α} (hok : ok s a) (hst : step s a t) : Run step ok s [a] t :=
  Run.nil.snoc hok hst

/-- The start is reachable. -/
theorem Reachable.refl : Reachable step s s := ⟨[], .nil⟩

/-- One more step stays reachable. -/
theorem Reachable.tail {u : σ} {a : α} (h : Reachable step s t) (hst : step t a u) :
    Reachable step s u := by
  obtain ⟨as, hr⟩ := h
  exact ⟨as ++ [a], hr.snoc trivial hst⟩

/-- Runs compose. -/
theorem Run.append {as bs : List α} {u : σ} (h₁ : Run step ok s as t) (h₂ : Run step ok t bs u) :
    Run step ok s (as ++ bs) u := by
  induction h₂ with
  | nil => simpa using h₁
  | snoc _ hok hst ih =>
    rw [← List.append_assoc]
    exact ih.snoc hok hst

/-- Reachability composes. -/
theorem Reachable.trans {u : σ} (h₁ : Reachable step s t) (h₂ : Reachable step t u) :
    Reachable step s u := by
  obtain ⟨as, ha⟩ := h₁
  obtain ⟨bs, hb⟩ := h₂
  exact ⟨as ++ bs, ha.append hb⟩

/-- A run under a condition is one under a weaker condition. -/
theorem Run.mono {ok' : σ → α → Prop} {as : List α} (h : Run step ok s as t)
    (hok : ∀ u a, ok u a → ok' u a) : Run step ok' s as t := by
  induction h with
  | nil => exact .nil
  | snoc _ hlast hst ih => exact ih.snoc (hok _ _ hlast) hst

/-- A run of actions that meet a condition in every state meets that condition. -/
theorem Run.of_forall {ok' : σ → α → Prop} {as : List α} (h : Run step ok s as t)
    (hok : ∀ a ∈ as, ∀ u, ok' u a) : Run step ok' s as t := by
  induction h with
  | nil => exact .nil
  | snoc _ _ hst ih =>
    refine (ih fun a ha => hok a (List.mem_append_left _ ha)).snoc (hok _ ?_ _) hst
    exact List.mem_append_right _ (.head _)

/-- Two conditions that agree on the steps from reachable states restrict the runs alike. -/
theorem Run.congr {ok' : σ → α → Prop} {as : List α}
    (h : ∀ t a u, Reachable step s t → step t a u → (ok t a ↔ ok' t a)) :
    Run step ok s as t ↔ Run step ok' s as t := by
  constructor
  · intro hrun
    induction hrun with
    | nil => exact .nil
    | snoc hrun hok hst ih =>
      exact ih.snoc ((h _ _ _ ⟨_, hrun.mono fun _ _ _ => trivial⟩ hst).mp hok) hst
  · intro hrun
    induction hrun with
    | nil => exact .nil
    | snoc hrun hok hst ih =>
      exact ih.snoc ((h _ _ _ ⟨_, hrun.mono fun _ _ _ => trivial⟩ hst).mpr hok) hst

/-- The last step of a run. -/
theorem Run.of_snoc {as : List α} {a : α} {u : σ} (h : Run step ok s (as ++ [a]) u) :
    ∃ t, Run step ok s as t ∧ ok t a ∧ step t a u := by
  generalize has : as ++ [a] = bs at h
  cases h with
  | nil => simp at has
  | snoc h hok hst =>
    obtain ⟨rfl, hlast⟩ := List.append_inj' has rfl
    cases hlast
    exact ⟨_, h, hok, hst⟩

/-- Where a state has one successor for each action, a run has one end. -/
theorem Run.unique (hdet : ∀ s a t u, step s a t → step s a u → t = u) {as : List α} {u : σ}
    (h₁ : Run step ok s as t) (h₂ : Run step ok s as u) : t = u := by
  induction h₁ generalizing u with
  | nil =>
    generalize has : [] = bs at h₂
    cases h₂ with
    | nil => rfl
    | snoc => simp at has
  | snoc h₁ _ hst ih =>
    obtain ⟨t', h₂, -, hst'⟩ := h₂.of_snoc
    cases ih h₂
    exact hdet _ _ _ _ hst hst'

/-- Some action of the run was taken in a state with which `P` holds of it. -/
def Took (step : σ → α → σ → Prop) (ok : σ → α → Prop) (s : σ) (as : List α) (P : σ → α → Prop) :
    Prop :=
  ∃ bs a cs t, as = bs ++ a :: cs ∧ Run step ok s bs t ∧ P t a

/-- What was taken stays so. -/
theorem Took.snoc {as : List α} {P : σ → α → Prop} (h : Took step ok s as P) (b : α) :
    Took step ok s (as ++ [b]) P := by
  obtain ⟨bs, a, cs, t, rfl, hrun, hP⟩ := h
  exact ⟨bs, a, cs ++ [b], t, by simp, hrun, hP⟩

/-- The last action was taken in the state that the run came to before it. -/
theorem Run.took {as : List α} {P : σ → α → Prop} {a : α} (h : Run step ok s as t) (hP : P t a) :
    Took step ok s (as ++ [a]) P :=
  ⟨as, a, [], t, rfl, h, hP⟩

theorem not_took_nil {P : σ → α → Prop} : ¬ Took step ok s [] P := by
  rintro ⟨bs, a, cs, t, has, -⟩
  simp at has

/-- What was taken was the last action, or it was taken before. -/
theorem Took.cases_snoc {as : List α} {P : σ → α → Prop} {b : α}
    (h : Took step ok s (as ++ [b]) P) :
    Took step ok s as P ∨ ∃ t, Run step ok s as t ∧ P t b := by
  obtain ⟨bs, a, cs, t, has, hrun, hP⟩ := h
  rcases List.eq_nil_or_concat cs with rfl | ⟨cs, c, rfl⟩
  · obtain ⟨rfl, hlast⟩ := List.append_inj' has rfl
    cases hlast
    exact .inr ⟨t, hrun, hP⟩
  · rw [List.concat_eq_append, ← List.cons_append, ← List.append_assoc] at has
    obtain ⟨rfl, -⟩ := List.append_inj' has rfl
    exact .inl ⟨bs, a, cs, t, rfl, hrun, hP⟩

/-- The run came through a state with `P`. -/
def Visited (step : σ → α → σ → Prop) (ok : σ → α → Prop) (s : σ) (as : List α) (P : σ → Prop) :
    Prop :=
  ∃ bs cs t, as = bs ++ cs ∧ Run step ok s bs t ∧ P t

theorem Visited.snoc {as : List α} {P : σ → Prop} (h : Visited step ok s as P) (b : α) :
    Visited step ok s (as ++ [b]) P := by
  obtain ⟨bs, cs, t, rfl, hrun, hP⟩ := h
  exact ⟨bs, cs ++ [b], t, by simp, hrun, hP⟩

/-- The state that the run ends in. -/
theorem Run.visited {as : List α} {P : σ → Prop} (h : Run step ok s as t) (hP : P t) :
    Visited step ok s as P :=
  ⟨as, [], t, by simp, h, hP⟩

/-- The run came through the state it ends in, or through it before. -/
theorem Visited.cases_snoc {as : List α} {P : σ → Prop} {b : α}
    (h : Visited step ok s (as ++ [b]) P) :
    Visited step ok s as P ∨ ∃ t, Run step ok s (as ++ [b]) t ∧ P t := by
  obtain ⟨bs, cs, t, has, hrun, hP⟩ := h
  rcases List.eq_nil_or_concat cs with rfl | ⟨cs, c, rfl⟩
  · rw [List.append_nil] at has
    exact .inr ⟨t, has ▸ hrun, hP⟩
  · rw [List.concat_eq_append, ← List.append_assoc] at has
    obtain ⟨rfl, -⟩ := List.append_inj' has rfl
    exact .inl ⟨bs, cs, t, rfl, hrun, hP⟩

/-- Where `P` holds after every run under a condition, and fails after the first step that does not
meet it, the runs that never leave `P` are those under the condition. -/
theorem Run.not_visited_iff (hdet : ∀ s a t u, step s a t → step s a u → t = u) {P : σ → Prop}
    (hgood : ∀ as t, Run step ok s as t → P t)
    (hbad : ∀ as t a u, Run step ok s as t → step t a u → ¬ ok t a → ¬ P u) {as : List α}
    (h : Run step (fun _ _ => True) s as t) :
    ¬ Visited step (fun _ _ => True) s as (fun u => ¬ P u) ↔ Run step ok s as t := by
  constructor
  · intro hnever
    induction h with
    | nil => exact .nil
    | @snoc as a t u hrun _ hst ih =>
      have hbefore : Run step ok s as t := ih fun hvisited => hnever (hvisited.snoc a)
      refine hbefore.snoc (Classical.byContradiction fun hnot => hnever ?_) hst
      exact (hrun.snoc trivial hst).visited (hbad as t a u hbefore hst hnot)
  · intro hok
    clear h
    induction hok with
    | nil =>
      rintro ⟨bs, cs, t, has, hrun, hfails⟩
      obtain ⟨rfl, -⟩ := List.append_eq_nil_iff.mp has.symm
      exact hfails (Run.unique hdet hrun .nil ▸ hgood [] s .nil)
    | @snoc as a t u hrun hlast hst ih =>
      intro hvisited
      rcases hvisited.cases_snoc with hbefore | ⟨u', hrun', hfails⟩
      · exact ih hbefore
      · have hwhole := hrun.snoc hlast hst
        have hsame := Run.unique hdet hrun' (hwhole.mono fun _ _ _ => trivial)
        exact hfails (hsame ▸ hgood _ u hwhole)

/-- Executing actions one after the other with a function that takes steps is a run. -/
theorem Run.of_foldlM_of_ok {next : σ → α → Option σ}
    (hnext : ∀ s a t, next s a = some t → ok s a ∧ step s a t) {as : List α}
    (h : as.foldlM next s = some t) : Run step ok s as t := by
  induction as generalizing s with
  | nil =>
    cases h
    exact .nil
  | cons a as ih =>
    rw [List.foldlM_cons] at h
    obtain ⟨u, hu, has⟩ := Option.bind_eq_some_iff.mp h
    obtain ⟨hok, hst⟩ := hnext s a u hu
    have hfirst : Run step ok s [a] u := Run.nil.snoc hok hst
    exact hfirst.append (ih has)

/-- An execution whose last state passes a test is a run that ends in such a state. -/
theorem Run.exists_of_any {next : σ → α → Option σ}
    (hnext : ∀ s a t, next s a = some t → ok s a ∧ step s a t) {as : List α} {P : σ → Prop}
    [DecidablePred P] (h : (as.foldlM next s).any (fun t => decide (P t)) = true) :
    ∃ t, Run step ok s as t ∧ P t := by
  obtain ⟨t, ht, hP⟩ := (Option.any_eq_true _ _).mp h
  exact ⟨t, .of_foldlM_of_ok hnext ht, of_decide_eq_true hP⟩

/-- The same for a function that does not know the condition. -/
theorem Run.exists_of_guarded {next : σ → α → Option σ} [∀ s a, Decidable (ok s a)]
    (hnext : ∀ s a t, next s a = some t → step s a t) {as : List α} {P : σ → Prop}
    [DecidablePred P] (h : (as.foldlM (fun s a => if ok s a then next s a else none) s).any
      (fun t => decide (P t)) = true) : ∃ t, Run step ok s as t ∧ P t := by
  refine Run.exists_of_any (fun s a t hguarded => ?_) h
  split at hguarded
  · next hok => exact ⟨hok, hnext s a t hguarded⟩
  · cases hguarded

theorem Run.of_foldlM {next : σ → α → Option σ} (hnext : ∀ s a t, next s a = some t → step s a t)
    {as : List α} (h : as.foldlM next s = some t) : Run step (fun _ _ => True) s as t :=
  .of_foldlM_of_ok (fun s a t hn => ⟨trivial, hnext s a t hn⟩) h

end ActiveDefense
