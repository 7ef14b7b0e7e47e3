import Mathlib.Algebra.BigOperators.Group.List.Basic
import Mathlib.Algebra.Ring.Nat
import Mathlib.Order.Defs.Unbundled

/-!
# Computations that change a state and may fail

The state at a failure is kept. `Moves R x` says that `x` only ever goes from a state to one that
`R` relates it to. `Pays Φ k gain x` is amortised cost: `x` takes at most `k` from outside, and what
it gains for its result it takes from the potential `Φ` of the state. `Completes I Φ B k gain x` is
its total form: where the potential starts within the bound `B`, `x` succeeds, and keeps `I`.
`Throws P x` says that `x` only fails with an error that `P` holds of, `Fails P x` that `P` holds of
the state at the failure as well, and `Atomic x` that a failure leaves the state as it was. Each has
a rule for each way to build a computation.
-/

namespace ActiveDefense

variable {ε σ α β : Type}

/-! ## Runs -/

theorem get_bind_run {f : σ → EStateM ε σ β} {s : σ} : (get >>= f) s = f s s := rfl

theorem set_bind_run {f : PUnit → EStateM ε σ β} {s t : σ} : (set t >>= f) s = f ⟨⟩ t := rfl

theorem pure_bind_run {f : α → EStateM ε σ β} {a : α} {s : σ} :
    ((pure a : EStateM ε σ α) >>= f) s = f a s := rfl

/-- What a run succeeds with. -/
def result? : EStateM.Result ε σ α → Option α
  | .ok a _ => some a
  | .error .. => none

theorem exists_of_result {x : EStateM ε σ α} {s : σ} {a : α} (h : result? (x s) = some a) :
    ∃ t, x s = .ok a t := by
  cases hrun : x s with
  | ok b t =>
    rw [hrun] at h
    cases h
    exact ⟨t, rfl⟩
  | error e t =>
    rw [hrun] at h
    cases h

/-- Where a computation succeeds, the rest goes on from there. -/
theorem bind_run_of_ok {x : EStateM ε σ α} {f : α → EStateM ε σ β} {s s' : σ} {a : α}
    (h : x s = .ok a s') : (x >>= f) s = f a s' := by
  change EStateM.bind x f s = f a s'
  rw [EStateM.bind, h]

/-- Where a computation fails, so does all of it. -/
theorem bind_run_of_error {x : EStateM ε σ α} {f : α → EStateM ε σ β} {s s' : σ} {e : ε}
    (h : x s = .error e s') : (x >>= f) s = .error e s' := by
  change EStateM.bind x f s = .error e s'
  rw [EStateM.bind, h]

/-- Where all of a computation succeeds, its first part did. -/
theorem exists_of_bind_ok {x : EStateM ε σ α} {f : α → EStateM ε σ β} {s t : σ} {b : β}
    (h : (x >>= f) s = .ok b t) : ∃ a u, x s = .ok a u ∧ f a u = .ok b t := by
  cases hrun : x s with
  | ok a u => exact ⟨a, u, rfl, (bind_run_of_ok hrun).symm.trans h⟩
  | error e u => cases (bind_run_of_error hrun).symm.trans h

/-- Where a computation succeeds that first throws on a condition, the condition fails. -/
theorem of_guard_ok {c : Prop} [Decidable c] {e : ε} {x : EStateM ε σ α} {s t : σ} {a : α}
    (h : (if c then (throw e : EStateM ε σ PUnit) >>= fun _ => x else x) s = .ok a t) :
    ¬ c ∧ x s = .ok a t := by
  split at h
  · cases h
  · next hc => exact ⟨hc, h⟩

theorem discard_eq {x : EStateM ε σ α} :
    discard x = x >>= fun _ => (pure ⟨⟩ : EStateM ε σ PUnit) := rfl

/-- Where a computation without its result succeeds, it had one. -/
theorem exists_of_discard_ok {x : EStateM ε σ α} {s t : σ} {u : PUnit}
    (h : discard x s = .ok u t) : ∃ a, x s = .ok a t := by
  rw [discard_eq] at h
  obtain ⟨a, t', hrun, h⟩ := exists_of_bind_ok h
  cases h
  exact ⟨a, hrun⟩

theorem error_of_discard {x : EStateM ε σ α} {s t : σ} {e : ε} (h : discard x s = .error e t) :
    x s = .error e t := by
  rw [discard_eq] at h
  cases hrun : x s with
  | ok a t' =>
    rw [bind_run_of_ok hrun] at h
    cases h
  | error e' t' =>
    rw [bind_run_of_error hrun] at h
    cases h
    rfl

/-- Computations that agree, with rests that agree wherever they come to, agree. -/
theorem bind_run_congr {x y : EStateM ε σ α} {f g : α → EStateM ε σ β} {s : σ} (h : x s = y s)
    (hrest : ∀ a t, x s = .ok a t → f a t = g a t) : (x >>= f) s = (y >>= g) s := by
  cases hrun : x s with
  | ok a t =>
    rw [bind_run_of_ok hrun, bind_run_of_ok (h.symm.trans hrun)]
    exact hrest a t hrun
  | error e t => rw [bind_run_of_error hrun, bind_run_of_error (h.symm.trans hrun)]

/-- A loop each of whose turns succeeds after the ones before it. -/
theorem exists_of_forM {I : List α → σ → Prop} {f : α → EStateM ε σ PUnit} {as : List α} {s : σ}
    (hs : I [] s) (hturn : ∀ done a rest t, as = done ++ a :: rest → I done t →
      ∃ u, f a t = .ok ⟨⟩ u ∧ I (done ++ [a]) u) :
    ∃ t, as.forM f s = .ok ⟨⟩ t ∧ I as t := by
  have hloop : ∀ rest done t, as = done ++ rest → I done t →
      ∃ u, rest.forM f t = .ok ⟨⟩ u ∧ I as u := by
    intro rest
    induction rest with
    | nil =>
      intro done t has ht
      rw [List.append_nil] at has
      exact ⟨t, rfl, has ▸ ht⟩
    | cons a rest ih =>
      intro done t has ht
      obtain ⟨u, hrun, hu⟩ := hturn done a rest t has ht
      obtain ⟨v, hrest, hv⟩ := ih (done ++ [a]) u (by simpa using has) hu
      exact ⟨v, (bind_run_of_ok hrun).trans hrest, hv⟩
  exact hloop as [] s rfl hs

/-! ## Where a computation goes -/

/-- The state that a run ends in. -/
def finalState : EStateM.Result ε σ α → σ
  | .ok _ s => s
  | .error _ s => s

/-- Where a computation ends that first throws on a condition. -/
theorem finalState_guard {c : Prop} [Decidable c] {e : ε} {x : EStateM ε σ α} {s : σ} :
    finalState ((if c then (throw e : EStateM ε σ PUnit) >>= fun _ => x else x) s) =
      if c then s else finalState (x s) := by
  split <;> rfl

/-- What is done with a result does not change where a computation ends. -/
theorem finalState_bind_pure {x : EStateM ε σ α} {f : α → β} {s : σ} :
    finalState ((x >>= fun a => (pure (f a) : EStateM ε σ β)) s) = finalState (x s) := by
  cases hrun : x s with
  | ok a t =>
    rw [bind_run_of_ok hrun]
    rfl
  | error e t =>
    rw [bind_run_of_error hrun]
    rfl

theorem finalState_discard {x : EStateM ε σ α} {s : σ} :
    finalState (discard x s) = finalState (x s) := finalState_bind_pure

/-- Where a computation with a rest ends: where the rest does, or where the computation fails. -/
theorem finalState_bind {P : σ → Prop} {x : EStateM ε σ α} {f : α → EStateM ε σ β} {s : σ}
    (hok : ∀ a t, x s = .ok a t → P (finalState (f a t))) (herror : ∀ e t, x s = .error e t → P t) :
    P (finalState ((x >>= f) s)) := by
  cases hrun : x s with
  | ok a t =>
    rw [bind_run_of_ok hrun]
    exact hok a t hrun
  | error e t =>
    rw [bind_run_of_error hrun]
    exact herror e t hrun

/-- Every run goes from a state to one that `R` relates it to. -/
def Moves (R : σ → σ → Prop) (x : EStateM ε σ α) : Prop := ∀ s, R s (finalState (x s))

namespace Moves

variable {R : σ → σ → Prop}

theorem pure [Std.Refl R] {a : α} : Moves R (pure a : EStateM ε σ α) := fun s => Std.Refl.refl s

theorem get [Std.Refl R] : Moves R (get : EStateM ε σ σ) := fun s => Std.Refl.refl s

theorem modify {f : σ → σ} (h : ∀ s, R s (f s)) : Moves R (modify f : EStateM ε σ PUnit) := h

/-- Where a run succeeds, it went to a state that `R` relates the first one to. -/
theorem of_ok {x : EStateM ε σ α} (hx : Moves R x) {s t : σ} {a : α} (h : x s = .ok a t) :
    R s t := by
  have hs := hx s
  rwa [h] at hs

/-- Where a run fails, it went to a state that `R` relates the first one to. -/
theorem of_error {x : EStateM ε σ α} (hx : Moves R x) {s t : σ} {e : ε} (h : x s = .error e t) :
    R s t := by
  have hs := hx s
  rwa [h] at hs

theorem bind [IsTrans σ R] {x : EStateM ε σ α} {f : α → EStateM ε σ β} (hx : Moves R x)
    (hf : ∀ a, Moves R (f a)) : Moves R (x >>= f) := by
  intro s
  refine finalState_bind (fun a t hrun => ?_) fun e t hrun => hx.of_error hrun
  exact IsTrans.trans _ _ _ (hx.of_ok hrun) (hf a t)

/-- A loop over a list. -/
theorem forM [Std.Refl R] [IsTrans σ R] {f : α → EStateM ε σ PUnit} {as : List α}
    (h : ∀ a ∈ as, Moves R (f a)) : Moves R (as.forM f) := by
  induction as with
  | nil => exact .pure
  | cons a as ih =>
    exact bind (h a (.head _)) fun _ => ih fun b hb => h b (List.mem_cons_of_mem _ hb)

/-- Loops whose turns agree on every state that they can come to agree. -/
theorem forM_congr [Std.Refl R] [IsTrans σ R] {f g : α → EStateM ε σ PUnit} {as : List α} {s : σ}
    (hf : ∀ a ∈ as, Moves R (f a)) (h : ∀ a ∈ as, ∀ t, R s t → f a t = g a t) :
    as.forM f s = as.forM g s := by
  induction as generalizing s with
  | nil => rfl
  | cons a as ih =>
    refine bind_run_congr (h a (.head _) s (Std.Refl.refl s)) fun u t hrun => ?_
    have hmoves := (hf a (.head _)).of_ok hrun
    refine ih (fun b hb => hf b (List.mem_cons_of_mem _ hb)) fun b hb t' ht' => ?_
    exact h b (List.mem_cons_of_mem _ hb) t' (IsTrans.trans _ _ _ hmoves ht')

end Moves

/-! ## How a computation fails -/

/-- Every failure is with an error that `P` holds of. -/
def Throws (P : ε → Prop) (x : EStateM ε σ α) : Prop := ∀ s e t, x s = .error e t → P e

namespace Throws

variable {P : ε → Prop}

theorem pure {a : α} : Throws P (pure a : EStateM ε σ α) := fun _ _ _ h => nomatch h

theorem get : Throws P (get : EStateM ε σ σ) := fun _ _ _ h => nomatch h

theorem set {s : σ} : Throws P (set s : EStateM ε σ PUnit) := fun _ _ _ h => nomatch h

theorem modify {f : σ → σ} : Throws P (modify f : EStateM ε σ PUnit) := fun _ _ _ h => nomatch h

theorem bind {x : EStateM ε σ α} {f : α → EStateM ε σ β} (hx : Throws P x)
    (hf : ∀ a, Throws P (f a)) : Throws P (x >>= f) := by
  intro s e t h
  cases hrun : x s with
  | ok a u =>
    rw [bind_run_of_ok hrun] at h
    exact hf a u e t h
  | error e' u =>
    rw [bind_run_of_error hrun] at h
    cases h
    exact hx s _ _ hrun

end Throws

/-- Every failure is with an error and in a state that `P` holds of. -/
def Fails (P : ε → σ → Prop) (x : EStateM ε σ α) : Prop := ∀ s e t, x s = .error e t → P e t

namespace Fails

variable {P : ε → σ → Prop}

theorem pure {a : α} : Fails P (pure a : EStateM ε σ α) := fun _ _ _ h => nomatch h

theorem get : Fails P (get : EStateM ε σ σ) := fun _ _ _ h => nomatch h

theorem modify {f : σ → σ} : Fails P (modify f : EStateM ε σ PUnit) := fun _ _ _ h => nomatch h

theorem bind {x : EStateM ε σ α} {f : α → EStateM ε σ β} (hx : Fails P x)
    (hf : ∀ a, Fails P (f a)) : Fails P (x >>= f) := by
  intro s e t h
  cases hrun : x s with
  | ok a u =>
    rw [bind_run_of_ok hrun] at h
    exact hf a u e t h
  | error e' u =>
    rw [bind_run_of_error hrun] at h
    cases h
    exact hx s _ _ hrun

/-- A loop over a list. -/
theorem forM {f : α → EStateM ε σ PUnit} {as : List α} (h : ∀ a, Fails P (f a)) :
    Fails P (as.forM f) := by
  induction as with
  | nil => exact .pure
  | cons a as ih => exact bind (h a) fun _ => ih

end Fails

/-- A failure leaves the state as it was. -/
def Atomic (x : EStateM ε σ α) : Prop := ∀ s e t, x s = .error e t → t = s

namespace Atomic

theorem throw {e : ε} : Atomic (throw e : EStateM ε σ α) := by
  intro s e' t h
  cases h
  rfl

theorem set {s : σ} : Atomic (set s : EStateM ε σ PUnit) := fun _ _ _ h => nomatch h

/-- What depends on the state. -/
theorem get {f : σ → EStateM ε σ α} (hf : ∀ s, Atomic (f s)) : Atomic (MonadState.get >>= f) :=
  fun s => hf s s

theorem guard {c : Prop} [Decidable c] {e : ε} {x : EStateM ε σ α} (hx : Atomic x) :
    Atomic (if c then (MonadExcept.throw e : EStateM ε σ PUnit) >>= fun _ => x else x) := by
  intro s e' t h
  split at h
  · cases h
    rfl
  · exact hx s e' t h

/-- A result that is computed at the end. -/
theorem bind_pure {x : EStateM ε σ α} {f : α → β} (hx : Atomic x) :
    Atomic (x >>= fun a => pure (f a)) := by
  intro s e t h
  cases hrun : x s with
  | ok a u =>
    rw [bind_run_of_ok hrun] at h
    cases h
  | error e' u =>
    rw [bind_run_of_error hrun] at h
    cases h
    exact hx s _ _ hrun

end Atomic

/-! ## What a computation costs -/

/-- The potential at the end of a run, with what was gained for the result, is within a bound. -/
def Affords (Φ : σ → Nat) (bound : Nat) (gain : α → Nat) : EStateM.Result ε σ α → Prop
  | .ok a s => Φ s + gain a ≤ bound
  | .error _ s => Φ s ≤ bound

/-- Whether a run succeeds or fails, the potential it ends with is within the bound. -/
theorem Affords.finalState_le {Φ : σ → Nat} {bound : Nat} {gain : α → Nat}
    {r : EStateM.Result ε σ α} (h : Affords Φ bound gain r) : Φ (finalState r) ≤ bound := by
  cases r with
  | ok a s => exact Nat.le_trans (Nat.le_add_right _ _) h
  | error e s => exact h

/-- Every run takes at most `k` from outside, and the rest of what it gains from the potential. -/
def Pays (Φ : σ → Nat) (k : Nat) (gain : α → Nat) (x : EStateM ε σ α) : Prop :=
  ∀ s, Affords Φ (Φ s + k) gain (x s)

namespace Pays

variable {Φ : σ → Nat} {k : Nat} {gain : α → Nat} {gain' : β → Nat}

theorem pure {a : α} (h : gain a ≤ k) : Pays Φ k gain (pure a : EStateM ε σ α) :=
  fun _ => Nat.add_le_add_left h _

theorem modify {f : σ → σ} (h : ∀ s, Φ (f s) ≤ Φ s + k) :
    Pays Φ k (fun _ => 0) (modify f : EStateM ε σ PUnit) := h

theorem mono {j : Nat} {gain₁ : α → Nat} {x : EStateM ε σ α} (h : Pays Φ j gain₁ x) (hj : j ≤ k)
    (hgain : ∀ a, gain a ≤ gain₁ a) : Pays Φ k gain x := by
  intro s
  have hs := h s
  cases hrun : x s with
  | ok a s' =>
    rw [hrun] at hs
    have hle := hgain a
    unfold Affords at hs ⊢
    omega
  | error e s' =>
    rw [hrun] at hs
    unfold Affords at hs ⊢
    omega

theorem bind {x : EStateM ε σ α} {f : α → EStateM ε σ β} (hx : Pays Φ k gain x)
    (hf : ∀ a, Pays Φ (gain a) gain' (f a)) : Pays Φ k gain' (x >>= f) := by
  intro s
  have hs := hx s
  cases hrun : x s with
  | ok a s' =>
    rw [bind_run_of_ok hrun]
    rw [hrun] at hs
    have hs' := hf a s'
    unfold Affords at hs hs' ⊢
    split at hs' <;> omega
  | error e s' =>
    rw [bind_run_of_error hrun]
    rw [hrun] at hs
    exact hs

/-- A reading of the state costs nothing, and the rest may use what was read of it. -/
theorem get {f : σ → EStateM ε σ β} (hf : ∀ s, Pays Φ k gain' (f s)) :
    Pays Φ k gain' (MonadStateOf.get >>= f) := fun s => hf s s

/-- What is not needed is left over. -/
theorem frame {x : EStateM ε σ α} (h : Pays Φ k gain x) (m : Nat) :
    Pays Φ (k + m) (fun a => gain a + m) x := by
  intro s
  have hs := h s
  unfold Affords at hs ⊢
  split at hs
  · show _ + (_ + m) ≤ _
    omega
  · omega

/-- A loop over a list takes what its turns take. -/
theorem forM {cost : α → Nat} {f : α → EStateM ε σ PUnit} {as : List α}
    (h : ∀ a ∈ as, Pays Φ (cost a) (fun _ => 0) (f a)) :
    Pays Φ (as.map cost).sum (fun _ => 0) (as.forM f) := by
  induction as with
  | nil => exact .pure (Nat.le_refl 0)
  | cons a as ih =>
    rw [List.map_cons, List.sum_cons]
    refine bind ((h a (.head _)).frame _) fun _ => ?_
    exact (ih fun b hb => h b (List.mem_cons_of_mem _ hb)).mono (Nat.le_add_left _ _)
      fun _ => Nat.le_refl 0

end Pays

/-! ## What a computation can afford succeeds -/

/-- From every state that `I` holds of, with the potential and `k` within the bound, a run succeeds
in a state that `I` holds of, and takes what it gains for its result from the two. -/
def Completes (I : σ → Prop) (Φ : σ → Nat) (B k : Nat) (gain : α → Nat) (x : EStateM ε σ α) :
    Prop :=
  ∀ s, I s → Φ s + k ≤ B → ∃ a t, x s = .ok a t ∧ I t ∧ Φ t + gain a ≤ Φ s + k

namespace Completes

variable {I : σ → Prop} {Φ : σ → Nat} {B k : Nat} {gain : α → Nat} {gain' : β → Nat}

theorem pure {a : α} (h : gain a ≤ k) : Completes I Φ B k gain (pure a : EStateM ε σ α) :=
  fun s hs _ => ⟨a, s, rfl, hs, Nat.add_le_add_left h _⟩

theorem modify {f : σ → σ} (hI : ∀ s, I s → I (f s)) (h : ∀ s, Φ (f s) ≤ Φ s) :
    Completes I Φ B k (fun _ => k) (modify f : EStateM ε σ PUnit) :=
  fun s hs _ => ⟨⟨⟩, f s, rfl, hI s hs, Nat.add_le_add_right (h s) _⟩

theorem mono {j : Nat} {gain₁ : α → Nat} {x : EStateM ε σ α} (h : Completes I Φ B j gain₁ x)
    (hj : j ≤ k) (hgain : ∀ a, gain a ≤ gain₁ a) : Completes I Φ B k gain x := by
  intro s hs hbound
  obtain ⟨a, t, hrun, ht, hpaid⟩ := h s hs (by omega)
  have hle := hgain a
  exact ⟨a, t, hrun, ht, by omega⟩

theorem bind {x : EStateM ε σ α} {f : α → EStateM ε σ β} (hx : Completes I Φ B k gain x)
    (hf : ∀ a, Completes I Φ B (gain a) gain' (f a)) : Completes I Φ B k gain' (x >>= f) := by
  intro s hs hbound
  obtain ⟨a, t, hrun, ht, hpaid⟩ := hx s hs hbound
  obtain ⟨b, u, hrest, hu, hpaid'⟩ := hf a t ht (by omega)
  exact ⟨b, u, (bind_run_of_ok hrun).trans hrest, hu, by omega⟩

/-- A reading of the state costs nothing, and the rest goes on from the state that was read. -/
theorem get {f : σ → EStateM ε σ β}
    (hf : ∀ s, I s → Φ s + k ≤ B → ∃ b t, f s s = .ok b t ∧ I t ∧ Φ t + gain' b ≤ Φ s + k) :
    Completes I Φ B k gain' (MonadStateOf.get >>= f) := hf

/-- What is not needed is left over. -/
theorem frame {x : EStateM ε σ α} (h : Completes I Φ B k gain x) (m : Nat) :
    Completes I Φ B (k + m) (fun a => gain a + m) x := by
  intro s hs hbound
  obtain ⟨a, t, hrun, ht, hpaid⟩ := h s hs (by omega)
  refine ⟨a, t, hrun, ht, ?_⟩
  show Φ t + (gain a + m) ≤ Φ s + (k + m)
  omega

/-- A loop over a list takes what its turns take. -/
theorem forM {cost : α → Nat} {f : α → EStateM ε σ PUnit} {as : List α}
    (h : ∀ a ∈ as, Completes I Φ B (cost a) (fun _ => 0) (f a)) :
    Completes I Φ B (as.map cost).sum (fun _ => 0) (as.forM f) := by
  induction as with
  | nil => exact .pure (Nat.le_refl 0)
  | cons a as ih =>
    rw [List.map_cons, List.sum_cons]
    refine bind ((h a (.head _)).frame _) fun _ => ?_
    exact (ih fun b hb => h b (List.mem_cons_of_mem _ hb)).mono (Nat.le_add_left _ _)
      fun _ => Nat.le_refl 0

end Completes

end ActiveDefense
