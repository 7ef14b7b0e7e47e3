import ActiveDefense.Lib.Effect

/-!
# Computations that a crash can cut short

A computation acts on a system by calls, each of which the system may refuse, or serve in part. The
states that the system passes through are kept, so that a property can be asked of each of them:
`Survives C P x Q` says that from a state which `P` holds of, `x` passes only through states which
`C` holds of, and that `Q` holds of what it comes to. `Observes v x` says that `x` changes nothing,
and says of the state what `v` does. Each way to build a computation has a rule.
-/

namespace ActiveDefense

/-- How the system answers a call: with an error, or by serving it, of what it asks for at most so
much. -/
inductive Answer (κ : Type) where
  | refuses (error : κ)
  | serves (most : Option Nat)
deriving DecidableEq, Repr

/-- A system, the states it was in before (newest first), and the answers still to come; a call
after them is served in full. -/
structure World (σ κ : Type) where
  state : σ
  earlier : List σ
  answers : List (Answer κ)

variable {σ κ ε ε' α β ι : Type}

/-- A system that nothing was called of yet. -/
def World.start (state : σ) (answers : List (Answer κ)) : World σ κ where
  state := state
  earlier := []
  answers := answers

/-- The states at which a crash can come. -/
def World.points (w : World σ κ) : List σ := w.state :: w.earlier

/-- A call of the system. One that fails changes nothing. -/
def call (act : Option Nat → σ → Except κ (α × σ)) : EStateM κ (World σ κ) α := fun w =>
  match w.answers.headD (.serves none) with
  | .refuses e => .error e { w with answers := w.answers.tail }
  | .serves most =>
    match act most w.state with
    | .error e => .error e { w with answers := w.answers.tail }
    | .ok (a, s) => .ok a { state := s, earlier := w.points, answers := w.answers.tail }

theorem points_of_call_error {act : Option Nat → σ → Except κ (α × σ)} {w w' : World σ κ} {e : κ}
    (h : call act w = .error e w') : w'.points = w.points := by
  unfold call at h
  split at h
  · cases h
    rfl
  · split at h
    · cases h
      rfl
    · cases h

/-- A change of the state that is not a call. -/
def note (f : σ → σ) : EStateM ε (World σ κ) PUnit := fun w =>
  .ok ⟨⟩ { w with state := f w.state, earlier := w.points }

/-- A result from outside of the system. -/
def ofExcept (r : Except ε α) : EStateM ε σ α := fun s =>
  match r with
  | .ok a => .ok a s
  | .error e => .error e s

/-- `Result::map_err`. -/
def mapErr (f : κ → ε) (x : EStateM κ σ α) : EStateM ε σ α := EStateM.adaptExcept f x

/-- A computation whose error is looked at. -/
def attempt (x : EStateM κ σ α) : EStateM ε σ (Except κ α) := fun s =>
  match x s with
  | .ok a t => .ok (.ok a) t
  | .error e t => .ok (.error e) t

theorem attempt_run_of_ok {x : EStateM κ σ α} {s t : σ} {a : α} (h : x s = .ok a t) :
    (attempt x : EStateM ε σ (Except κ α)) s = .ok (.ok a) t := by
  rw [attempt, h]

theorem attempt_run_of_error {x : EStateM κ σ α} {s t : σ} {e : κ} (h : x s = .error e t) :
    (attempt x : EStateM ε σ (Except κ α)) s = .ok (.error e) t := by
  rw [attempt, h]

theorem ofExcept_run_of_error {r : Except ε α} {s : σ} {e : ε} (h : r = .error e) :
    (ofExcept r : EStateM ε σ α) s = .error e s := by
  rw [h]
  rfl

theorem error_of_ofExcept {r : Except ε α} {s t : σ} {e : ε}
    (h : (ofExcept r : EStateM ε σ α) s = .error e t) : r = .error e := by
  cases r with
  | ok a => cases h
  | error e' =>
    cases h
    rfl

theorem ofExcept_run_of_ok {r : Except ε α} {s : σ} {a : α} (h : r = .ok a) :
    (ofExcept r : EStateM ε σ α) s = .ok a s := by
  rw [h]
  rfl

theorem exists_of_mapErr_ok {f : κ → ε} {x : EStateM κ σ α} {s t : σ} {a : α}
    (h : mapErr f x s = .ok a t) : x s = .ok a t := by
  unfold mapErr EStateM.adaptExcept at h
  cases hrun : x s with
  | ok b u =>
    rw [hrun] at h
    cases h
    rfl
  | error e u =>
    rw [hrun] at h
    cases h

theorem mapErr_run_of_ok {f : κ → ε} {x : EStateM κ σ α} {s t : σ} {a : α} (h : x s = .ok a t) :
    mapErr f x s = .ok a t := by
  unfold mapErr EStateM.adaptExcept
  rw [h]

/-- An error that is mapped is in the image. -/
theorem mapErr_throws {P : ε → Prop} {f : κ → ε} {x : EStateM κ σ α} (h : ∀ e, P (f e)) :
    Throws P (mapErr f x) := by
  intro s e t hrun
  unfold mapErr EStateM.adaptExcept at hrun
  cases hx : x s with
  | ok a u =>
    rw [hx] at hrun
    cases hrun
  | error e' u =>
    rw [hx] at hrun
    cases hrun
    exact h e'

theorem finalState_mapErr {f : κ → ε} {x : EStateM κ σ α} {s : σ} :
    finalState (mapErr f x s) = finalState (x s) := by
  unfold mapErr EStateM.adaptExcept
  cases x s <;> rfl

/-! ## Where the system goes -/

/-- The system goes from a state to one that `R` relates it to. -/
def Advances (R : σ → σ → Prop) (x : EStateM ε (World σ κ) α) : Prop :=
  Moves (fun w w' => R w.state w'.state) x

namespace Advances

variable {R : σ → σ → Prop}

theorem bind [IsTrans σ R] {x : EStateM ε (World σ κ) α} {f : α → EStateM ε (World σ κ) β}
    (hx : Advances R x) (hf : ∀ a, Advances R (f a)) : Advances R (x >>= f) := by
  intro w
  refine ActiveDefense.finalState_bind (fun a w' hrun => ?_) fun e w' hrun => hx.of_error hrun
  exact IsTrans.trans _ _ _ (hx.of_ok hrun) (hf a w')

theorem pure [Std.Refl R] {a : α} : Advances R (pure a : EStateM ε (World σ κ) α) :=
  fun w => Std.Refl.refl w.state

theorem ofExcept [Std.Refl R] {r : Except ε α} :
    Advances R (ofExcept r : EStateM ε (World σ κ) α) := by
  intro w
  cases r <;> exact Std.Refl.refl w.state

theorem note {f : σ → σ} (h : ∀ s, R s (f s)) :
    Advances R (note f : EStateM ε (World σ κ) PUnit) := fun w => h w.state

theorem mapErr {f : κ → ε} {x : EStateM κ (World σ κ) α} (h : Advances R x) :
    Advances R (mapErr f x) := by
  intro w
  rw [finalState_mapErr]
  exact h w

theorem call [Std.Refl R] {act : Option Nat → σ → Except κ (α × σ)}
    (h : ∀ most s a t, act most s = .ok (a, t) → R s t) : Advances R (call act) := by
  intro w
  unfold ActiveDefense.call
  split
  · exact Std.Refl.refl w.state
  · next most _ =>
    split
    · exact Std.Refl.refl w.state
    · next a t hact => exact h most w.state a t hact

/-- The rest of a computation goes on from where its first part ends. -/
theorem finalState_bind [Std.Refl R] {x : EStateM ε (World σ κ) α}
    {f : α → EStateM ε (World σ κ) β} (hf : ∀ a, Advances R (f a)) (w : World σ κ) :
    R (finalState (x w)).state (finalState ((x >>= f) w)).state := by
  cases hrun : x w with
  | ok a w' =>
    rw [bind_run_of_ok hrun]
    exact hf a w'
  | error e w' =>
    rw [bind_run_of_error hrun]
    exact Std.Refl.refl w'.state

end Advances

/-! ## What holds at each point -/

/-- Every state passed through satisfies `C`. -/
def Throughout (C : σ → Prop) (w : World σ κ) : Prop := ∀ s ∈ w.points, C s

/-- From a state which `P` holds of, the computation passes only through states which `C` holds of,
and `Q` holds of its result and the state it has it in. -/
def Survives (C P : σ → Prop) (x : EStateM ε (World σ κ) α) (Q : α → σ → Prop) : Prop :=
  ∀ w, P w.state → Throughout C w →
    Throughout C (finalState (x w)) ∧ ∀ a w', x w = .ok a w' → Q a w'.state

namespace Survives

variable {C P : σ → Prop} {Q : α → σ → Prop} {R : β → σ → Prop}

/-- A computation that first throws on a condition. -/
theorem guard {c : Prop} [Decidable c] {e : ε} {x : EStateM ε (World σ κ) α}
    (h : ¬ c → Survives C P x Q) :
    Survives C P (if c then (throw e : EStateM ε (World σ κ) PUnit) >>= fun _ => x else x) Q := by
  split
  · exact fun w _ hC => ⟨hC, fun a w' hrun => nomatch hrun⟩
  · next hc => exact h hc

theorem pure {a : α} (h : ∀ s, P s → Q a s) :
    Survives C P (pure a : EStateM ε (World σ κ) α) Q := by
  intro w hP hC
  refine ⟨hC, fun b w' hrun => ?_⟩
  cases hrun
  exact h _ hP

theorem throw {e : ε} : Survives C P (throw e : EStateM ε (World σ κ) α) Q := by
  intro w _ hC
  exact ⟨hC, fun a w' hrun => nomatch hrun⟩

theorem bind {x : EStateM ε (World σ κ) α} {f : α → EStateM ε (World σ κ) β}
    (hx : Survives C P x Q) (hf : ∀ a, Survives C (Q a) (f a) R) : Survives C P (x >>= f) R := by
  intro w hP hC
  obtain ⟨hpoints, hend⟩ := hx w hP hC
  cases hrun : x w with
  | ok a w' =>
    rw [hrun] at hpoints
    rw [bind_run_of_ok hrun]
    exact hf a w' (hend a w' hrun) hpoints
  | error e w' =>
    rw [hrun] at hpoints
    rw [bind_run_of_error hrun]
    exact ⟨hpoints, fun b w'' h => nomatch h⟩

/-- The rule of consequence. -/
theorem mono {P' : σ → Prop} {Q' : α → σ → Prop} {x : EStateM ε (World σ κ) α}
    (h : Survives C P x Q) (hP : ∀ s, P' s → P s) (hQ : ∀ a s, Q a s → Q' a s) :
    Survives C P' x Q' := by
  intro w hw hC
  obtain ⟨hpoints, hend⟩ := h w (hP _ hw) hC
  exact ⟨hpoints, fun a w' hrun => hQ a _ (hend a w' hrun)⟩

/-- What is known of the data, not of the state, is known of the computation too. -/
theorem of_fact {φ : Prop} {x : EStateM ε (World σ κ) α} (h : φ → Survives C P x Q) :
    Survives C (fun s => φ ∧ P s) x Q := fun w hw hC => h hw.1 w hw.2 hC

theorem of_exists {P : ι → σ → Prop} {x : EStateM ε (World σ κ) α}
    (h : ∀ i, Survives C (P i) x Q) : Survives C (fun s => ∃ i, P i s) x Q := by
  rintro w ⟨i, hw⟩ hC
  exact h i w hw hC

/-- It is enough to go through the states one by one. -/
theorem of_states {x : EStateM ε (World σ κ) α} (h : ∀ s, P s → Survives C (· = s) x Q) :
    Survives C P x Q := fun w hw hC => h w.state hw w rfl hC

theorem ofExcept {r : Except ε α} :
    Survives C P (ofExcept r : EStateM ε (World σ κ) α) fun a s => r = .ok a ∧ P s := by
  intro w hP hC
  cases r with
  | ok a =>
    refine ⟨hC, fun b w' hrun => ?_⟩
    cases hrun
    exact ⟨rfl, hP⟩
  | error e => exact ⟨hC, fun b w' hrun => nomatch hrun⟩

theorem note {f : σ → σ} {Q : PUnit → σ → Prop} (h : ∀ s, P s → C (f s) ∧ Q ⟨⟩ (f s)) :
    Survives C P (note f : EStateM ε (World σ κ) PUnit) Q := by
  intro w hP hC
  obtain ⟨hCf, hQ⟩ := h w.state hP
  refine ⟨fun s hs => ?_, fun b w' hrun => ?_⟩
  · rcases List.mem_cons.mp hs with rfl | hs
    · exact hCf
    · exact hC s hs
  · cases hrun
    exact hQ

/-- An error that is mapped is an error all the same. -/
theorem mapErr {f : κ → ε} {x : EStateM κ (World σ κ) α} (h : Survives C P x Q) :
    Survives C P (mapErr f x) Q := by
  intro w hP hC
  obtain ⟨hpoints, hend⟩ := h w hP hC
  rw [finalState_mapErr]
  exact ⟨hpoints, fun a w' hrun => hend a w' (exists_of_mapErr_ok hrun)⟩

/-- A call, of which it is enough to know what it does where it is served. -/
theorem call {act : Option Nat → σ → Except κ (α × σ)}
    (h : ∀ most s a t, P s → act most s = .ok (a, t) → C t ∧ Q a t) :
    Survives C P (call act) Q := by
  intro w hP hC
  unfold ActiveDefense.call
  split
  · exact ⟨hC, fun a w' hrun => nomatch hrun⟩
  · next most _ =>
    split
    · exact ⟨hC, fun a w' hrun => nomatch hrun⟩
    · next a t hact =>
      obtain ⟨hCt, hQ⟩ := h most _ a t hP hact
      refine ⟨fun s hs => ?_, fun b w' hrun => ?_⟩
      · rcases List.mem_cons.mp hs with rfl | hs
        · exact hCt
        · exact hC s hs
      · cases hrun
        exact hQ

end Survives

/-! ## A system that refuses nothing -/

/-- The computation succeeds where every call is served in full. -/
def Succeeds (x : EStateM ε (World σ κ) α) : Prop :=
  ∀ w, w.answers = [] → ∃ a w', x w = .ok a w' ∧ w'.answers = []

namespace Succeeds

theorem pure {a : α} : Succeeds (pure a : EStateM ε (World σ κ) α) := fun w hw => ⟨a, w, rfl, hw⟩

theorem bind {x : EStateM ε (World σ κ) α} {f : α → EStateM ε (World σ κ) β} (hx : Succeeds x)
    (hf : ∀ a, Succeeds (f a)) : Succeeds (x >>= f) := by
  intro w hw
  obtain ⟨a, w', hrun, hw'⟩ := hx w hw
  obtain ⟨b, w'', hrun', hw''⟩ := hf a w' hw'
  exact ⟨b, w'', (bind_run_of_ok hrun).trans hrun', hw''⟩

theorem mapErr {f : κ → ε} {x : EStateM κ (World σ κ) α} (h : Succeeds x) :
    Succeeds (mapErr f x) := by
  intro w hw
  obtain ⟨a, w', hrun, hw'⟩ := h w hw
  exact ⟨a, w', mapErr_run_of_ok hrun, hw'⟩

end Succeeds

/-- A call that is not refused. -/
theorem exists_call_run {act : Option Nat → σ → Except κ (α × σ)} {w : World σ κ} {a : α} {s : σ}
    (hw : w.answers = []) (hact : act none w.state = .ok (a, s)) :
    ∃ w', call act w = .ok a w' ∧ w'.state = s ∧ w'.answers = [] := by
  refine ⟨⟨s, w.points, w.answers.tail⟩, ?_, rfl, by rw [hw]; rfl⟩
  unfold call
  rw [hw]
  dsimp only [List.headD_nil]
  rw [hact]

theorem Succeeds.call {act : Option Nat → σ → Except κ (α × σ)}
    (h : ∀ s, ∃ a t, act none s = .ok (a, t)) : Succeeds (call act) := by
  intro w hw
  obtain ⟨a, t, hact⟩ := h w.state
  obtain ⟨w', hrun, -, hw'⟩ := exists_call_run hw hact
  exact ⟨a, w', hrun, hw'⟩

/-! ## Looking at the system -/

/-- The computation changes nothing, and what it says is what `v` says of the state; where no call
is refused it says it. -/
structure Observes (v : σ → Option α) (x : EStateM ε (World σ κ) α) : Prop where
  of_ok : ∀ {w a w'}, x w = .ok a w' → w'.state = w.state ∧ v w.state = some a
  exists_run : ∀ {w a}, w.answers = [] → v w.state = some a →
    ∃ w', x w = .ok a w' ∧ w'.state = w.state ∧ w'.answers = []

namespace Observes

variable {v : σ → Option α}

theorem congr {v' : σ → Option α} {x : EStateM ε (World σ κ) α} (h : Observes v x)
    (hv : ∀ s, v' s = v s) : Observes v' x := by
  have heq : v' = v := funext hv
  rwa [heq]

theorem pure {a : α} : Observes (fun _ => some a) (pure a : EStateM ε (World σ κ) α) where
  of_ok hrun := by
    cases hrun
    exact ⟨rfl, rfl⟩
  exists_run hw hv := by
    cases hv
    exact ⟨_, rfl, rfl, hw⟩

theorem throw {e : ε} : Observes (fun _ => none) (throw e : EStateM ε (World σ κ) α) where
  of_ok hrun := by cases hrun
  exists_run _ hv := by cases hv

theorem bind {v' : α → σ → Option β} {x : EStateM ε (World σ κ) α}
    {f : α → EStateM ε (World σ κ) β} (hx : Observes v x) (hf : ∀ a, Observes (v' a) (f a)) :
    Observes (fun s => (v s).bind fun a => v' a s) (x >>= f) where
  of_ok {w b w'} hrun := by
    obtain ⟨a, u, hrun, hrest⟩ := exists_of_bind_ok hrun
    obtain ⟨hu, hv⟩ := hx.of_ok hrun
    obtain ⟨hw', hv'⟩ := (hf a).of_ok hrest
    rw [hu] at hw' hv'
    refine ⟨hw', ?_⟩
    rw [hv]
    exact hv'
  exists_run {w b} hw hv := by
    obtain ⟨a, hv, hv'⟩ := Option.bind_eq_some_iff.mp hv
    obtain ⟨u, hrun, hu, hanswers⟩ := hx.exists_run hw hv
    rw [← hu] at hv'
    obtain ⟨w', hrest, hw', hanswers'⟩ := (hf a).exists_run hanswers hv'
    exact ⟨w', (bind_run_of_ok hrun).trans hrest, hw'.trans hu, hanswers'⟩

theorem mapErr {f : ε' → ε} {x : EStateM ε' (World σ κ) α} (h : Observes v x) :
    Observes v (mapErr f x) where
  of_ok hrun := h.of_ok (exists_of_mapErr_ok hrun)
  exists_run hw hv := by
    obtain ⟨w', hrun, hw', hanswers⟩ := h.exists_run hw hv
    exact ⟨w', mapErr_run_of_ok hrun, hw', hanswers⟩

theorem ofExcept {r : Except ε α} :
    Observes (fun _ => r.toOption) (ofExcept r : EStateM ε (World σ κ) α) := by
  cases r with
  | ok a => exact .pure
  | error e => exact .throw

theorem call {act : Option Nat → σ → Except κ (α × σ)}
    (h : ∀ most s a t, act most s = .ok (a, t) ↔ v s = some a ∧ t = s) :
    Observes v (call act) where
  of_ok {w a w'} hrun := by
    unfold ActiveDefense.call at hrun
    split at hrun
    · cases hrun
    · next most _ =>
      split at hrun
      · cases hrun
      · next b t hact =>
        cases hrun
        obtain ⟨hv, rfl⟩ := (h _ _ _ _).mp hact
        exact ⟨rfl, hv⟩
  exists_run {w a} hw hv := exists_call_run hw ((h none _ a _).mpr ⟨hv, rfl⟩)

/-- A call whose error is looked at changes nothing either. -/
theorem of_attempt {act : Option Nat → σ → Except κ (α × σ)}
    (h : Observes v (ActiveDefense.call act)) {w w' : World σ κ} {r : Except κ α}
    (hrun : (attempt (ActiveDefense.call act) : EStateM ε (World σ κ) (Except κ α)) w = .ok r w') :
    w'.state = w.state ∧ ∀ a, r = .ok a → v w.state = some a := by
  cases hcall : ActiveDefense.call act w with
  | ok a u =>
    rw [attempt_run_of_ok hcall] at hrun
    cases hrun
    obtain ⟨hstate, hv⟩ := h.of_ok hcall
    refine ⟨hstate, fun b hb => ?_⟩
    cases hb
    exact hv
  | error e u =>
    rw [attempt_run_of_error hcall] at hrun
    cases hrun
    exact ⟨(List.cons.inj (points_of_call_error hcall)).1, fun a ha => by cases ha⟩

/-- A loop that looks at each element says what it sees of each, if it can see all. -/
theorem mapM {v : β → σ → Option α} {f : β → EStateM ε (World σ κ) α}
    (h : ∀ b, Observes (v b) (f b)) (bs : List β) :
    Observes (fun s => if ∀ b ∈ bs, (v b s).isSome then some (bs.filterMap (v · s)) else none)
      (bs.mapM f) := by
  induction bs with
  | nil =>
    rw [List.mapM_nil]
    refine Observes.pure.congr fun s => ?_
    rw [if_pos (fun b hb => absurd hb List.not_mem_nil), List.filterMap_nil]
  | cons b bs ih =>
    rw [List.mapM_cons]
    refine ((h b).bind fun a => ih.bind fun as => .pure).congr fun s => ?_
    cases hb : v b s with
    | none =>
      rw [if_neg fun hall => ?_, Option.bind_none]
      have hsome := hall b (.head _)
      rw [hb] at hsome
      cases hsome
    | some a =>
      simp only [List.forall_mem_cons, hb, Option.isSome_some, true_and, Option.bind_some,
        List.filterMap_cons]
      split <;> rfl

end Observes

end ActiveDefense
