import Mathlib.Data.List.Forall2

/-!
# Computations that return a result or an error, or panic

`Returns P x` says that `x`, which may panic, does not, and that `P` holds of its value. In
`ExceptT ε (Except π)` an error is a result like any other, and a panic is not: `Safe P x` says that
`x` does not panic, and that `P` holds of the value where it returns one. Each has a rule for each
way to build a computation; the rule of a loop takes an invariant of what is still to come, and that
of a guard hands on that the guard let it through.
-/

namespace ActiveDefense

variable {ε π α β : Type}

/-! ## Without errors -/

/-- No panic, and `P` holds of the value. -/
def Returns (P : α → Prop) (x : Except π α) : Prop := ∃ a, x = .ok a ∧ P a

namespace Returns

variable {P : α → Prop} {R : β → Prop}

theorem pure {a : α} (h : P a) : Returns P (pure a : Except π α) := ⟨a, rfl, h⟩

theorem bind {x : Except π α} {f : α → Except π β} (hx : Returns P x)
    (hf : ∀ a, P a → Returns R (f a)) : Returns R (x >>= f) := by
  obtain ⟨a, rfl, hP⟩ := hx
  exact hf a hP

/-- A loop, with an invariant of the elements that are still to come. -/
theorem foldlM {I : List α → β → Prop} {f : β → α → Except π β} {as : List α} {b : β}
    (hb : I as b) (h : ∀ a as b, I (a :: as) b → Returns (I as) (f b a)) :
    Returns (I []) (as.foldlM f b) := by
  induction as generalizing b with
  | nil => exact .pure hb
  | cons a as ih =>
    rw [List.foldlM_cons]
    exact (h a as b hb).bind fun b' hb' => ih hb'

end Returns

/-! ## With errors -/

/-- No panic, and `P` holds of every value that is returned. -/
def Safe (P : α → Prop) (x : ExceptT ε (Except π) α) : Prop :=
  ∃ r, x.run = .ok r ∧ ∀ a, r = .ok a → P a

/-- The value of an option, or an error. -/
def okOr (x : Option α) (e : ε) : ExceptT ε (Except π) α :=
  match x with
  | some a => pure a
  | none => throw e

/-- A computation that may panic, and returns no error. -/
theorem run_lift {x : Except π α} :
    (liftM x : ExceptT ε (Except π) α).run = x.map .ok := by
  cases x <;> rfl

namespace Safe

variable {P : α → Prop} {R : β → Prop}

theorem pure {a : α} (h : P a) : Safe P (pure a : ExceptT ε (Except π) α) :=
  ⟨.ok a, rfl, fun _ hb => by
    cases hb
    exact h⟩

/-- A computation in two parts is safe if the second is wherever the first comes to. -/
theorem bind {x : ExceptT ε (Except π) α} {f : α → ExceptT ε (Except π) β} (hx : Safe P x)
    (hf : ∀ a, P a → Safe R (f a)) : Safe R (x >>= f) := by
  obtain ⟨r, hrun, hP⟩ := hx
  have hbind : (x >>= f).run = x.run >>= ExceptT.bindCont f := rfl
  cases r with
  | error e => exact ⟨.error e, by rw [hbind, hrun]; rfl, nofun⟩
  | ok a =>
    obtain ⟨r', hrun', hR⟩ := hf a (hP a rfl)
    refine ⟨r', ?_, hR⟩
    rw [hbind, hrun]
    exact hrun'

/-- What does not panic goes on with its value. -/
theorem lift {x : Except π α} {a : α} (hx : x = .ok a) {f : α → ExceptT ε (Except π) β}
    (hf : Safe R (f a)) : Safe R (liftM x >>= f) := by
  have hlift : Safe (· = a) (liftM x : ExceptT ε (Except π) α) := by
    refine ⟨.ok a, by rw [run_lift, hx]; rfl, fun b hb => ?_⟩
    cases hb
    rfl
  exact hlift.bind fun b hb => hb ▸ hf

/-- Past an option there was a value. -/
theorem okOr {x : Option α} {e : ε} {f : α → ExceptT ε (Except π) β}
    (hf : ∀ a, x = some a → Safe R (f a)) : Safe R (okOr x e >>= f) := by
  cases x with
  | none => exact ⟨.error e, rfl, nofun⟩
  | some a => exact hf a rfl

/-- Past a guard its condition fails. -/
theorem guard {c : Prop} [Decidable c] {e : ε} {f : PUnit → ExceptT ε (Except π) α}
    (hf : ¬ c → Safe P (f ⟨⟩)) :
    Safe P (if c then (MonadExcept.throw e : ExceptT ε (Except π) PUnit) >>= f else f ⟨⟩) := by
  split
  · exact ⟨.error e, rfl, nofun⟩
  · next hc => exact hf hc

/-- A loop that collects what its turns return. -/
theorem mapM {R : α → β → Prop} {f : α → ExceptT ε (Except π) β} {as : List α}
    (h : ∀ a ∈ as, Safe (R a) (f a)) : Safe (List.Forall₂ R as) (as.mapM f) := by
  induction as with
  | nil =>
    rw [List.mapM_nil]
    exact .pure .nil
  | cons a as ih =>
    rw [List.mapM_cons]
    refine (h a (.head _)).bind fun b hb => ?_
    refine (ih fun a' ha' => h a' (List.mem_cons_of_mem _ ha')).bind fun bs hbs => ?_
    exact .pure (.cons hb hbs)

end Safe

/-! ## What is returned

`Yields P x` says that `P` holds of the value that `x` returns, where it returns one. Nothing is said
about panics.
-/

/-- `P` holds of every value that is returned. -/
def Yields (P : α → Prop) (x : ExceptT ε (Except π) α) : Prop := ∀ a, x.run = .ok (.ok a) → P a

namespace Yields

variable {P : α → Prop} {R : β → Prop}

theorem pure {a : α} (h : P a) : Yields P (pure a : ExceptT ε (Except π) α) := fun b hb => by
  cases hb
  exact h

theorem bind {x : ExceptT ε (Except π) α} {f : α → ExceptT ε (Except π) β} (hx : Yields P x)
    (hf : ∀ a, P a → Yields R (f a)) : Yields R (x >>= f) := by
  intro b hb
  have hbind : (x >>= f).run = x.run >>= ExceptT.bindCont f := rfl
  rw [hbind] at hb
  match hrun : x.run with
  | .error e => rw [hrun] at hb; cases hb
  | .ok (.error e) => rw [hrun] at hb; cases hb
  | .ok (.ok a) =>
    rw [hrun] at hb
    exact hf a (hx a hrun) b hb

/-- What a first part returns does not matter. -/
theorem after {x : ExceptT ε (Except π) α} {f : α → ExceptT ε (Except π) β}
    (hf : ∀ a, Yields R (f a)) : Yields R (x >>= f) :=
  bind (P := fun _ => True) (fun _ _ => trivial) fun a _ => hf a

theorem lift {x : Except π α} (h : ∀ a, x = .ok a → P a) :
    Yields P (liftM x : ExceptT ε (Except π) α) := by
  intro a ha
  rw [run_lift] at ha
  cases x with
  | error e => cases ha
  | ok b =>
    cases ha
    exact h a rfl

/-- Nothing is returned where a guard fails. -/
theorem guard {c : Prop} [Decidable c] {e : ε} {f : PUnit → ExceptT ε (Except π) α}
    (hf : Yields P (f ⟨⟩)) :
    Yields P (if c then (MonadExcept.throw e : ExceptT ε (Except π) PUnit) >>= f else f ⟨⟩) := by
  split
  · exact nofun
  · exact hf

/-- A loop that collects what its turns return. -/
theorem mapM {ι : Type} {f : ι → ExceptT ε (Except π) β} {as : List ι} (h : ∀ a, Yields R (f a)) :
    Yields (fun bs => ∀ b ∈ bs, R b) (as.mapM f) := by
  induction as with
  | nil =>
    rw [List.mapM_nil]
    exact .pure nofun
  | cons a as ih =>
    rw [List.mapM_cons]
    exact (h a).bind fun b hb => ih.bind fun bs hbs => .pure (List.forall_mem_cons.mpr ⟨hb, hbs⟩)

end Yields

end ActiveDefense
