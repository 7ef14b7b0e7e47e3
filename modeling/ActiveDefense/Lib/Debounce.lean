import ActiveDefense.Lib.Table

/-!
# Events that are let through at most once in a while

An event of a key is let through unless one of the same key was, less than `gap` before. Over a run
with a clock that does not go back, what is let through of a key is `gap` apart, and whatever is not
comes less than `gap` after something of its key that is (`debounced_debounce`).
-/

namespace ActiveDefense

variable {ε κ : Type}

/-- What is let through of these events. -/
structure Debounced (key : ε → κ) (time : ε → Nat) (gap : Nat) (events through : List ε) :
    Prop where
  sublist : through.Sublist events
  apart : through.Pairwise fun e e' => key e = key e' → time e + gap ≤ time e'
  covered : ∀ e ∈ events, ∃ e' ∈ through, key e' = key e ∧ time e' ≤ time e ∧
    (e' = e ∨ time e < time e' + gap)

variable [DecidableEq κ] (key : ε → κ) (time : ε → Nat) (gap : Nat)

/-- Whether an event is let through, by the last one of its key that was. -/
def passes (seen : Table κ Nat) (event : ε) : Bool :=
  (seen.lookup (key event)).all fun prev => !decide (time event - prev < gap)

/-- The events that are let through, and the table after them. -/
def debounce (seen : Table κ Nat) : List ε → List ε × Table κ Nat
  | [] => ([], seen)
  | event :: events =>
    if passes key time gap seen event then
      let (through, last) := debounce (seen.insert (key event) (time event)) events
      (event :: through, last)
    else debounce seen events

variable {key time gap} {seen : Table κ Nat} {events : List ε}

theorem passes_iff {event : ε} : passes key time gap seen event = true ↔
    ∀ prev, seen.lookup (key event) = some prev → gap ≤ time event - prev := by
  rw [passes]
  cases seen.lookup (key event) with
  | none => simp
  | some prev => simp

theorem debounce_append {later : List ε} : debounce key time gap seen (events ++ later) =
    ((debounce key time gap seen events).1 ++
      (debounce key time gap (debounce key time gap seen events).2 later).1,
      (debounce key time gap (debounce key time gap seen events).2 later).2) := by
  induction events generalizing seen with
  | nil => rfl
  | cons event events ih =>
    rw [List.cons_append, debounce, debounce]
    split
    · rw [ih]
      rfl
    · exact ih

theorem debounce_sublist : (debounce key time gap seen events).1.Sublist events := by
  induction events generalizing seen with
  | nil => exact .slnil
  | cons event events ih =>
    rw [debounce]
    split
    · exact ih.cons_cons _
    · exact ih.cons _

/-- From any table on: what is let through keeps its distance from what the table has, too. -/
theorem debounce_spec
    (hseen : ∀ e ∈ events, ∀ prev, seen.lookup (key e) = some prev → prev ≤ time e)
    (hclock : events.Pairwise fun e e' => time e ≤ time e') :
    (∀ e ∈ (debounce key time gap seen events).1, ∀ prev,
      seen.lookup (key e) = some prev → prev + gap ≤ time e) ∧
    (debounce key time gap seen events).1.Pairwise
      (fun e e' => key e = key e' → time e + gap ≤ time e') ∧
    ∀ e ∈ events, (∃ prev, seen.lookup (key e) = some prev ∧ time e < prev + gap) ∨
      ∃ e' ∈ (debounce key time gap seen events).1, key e' = key e ∧ time e' ≤ time e ∧
        (e' = e ∨ time e < time e' + gap) := by
  induction events generalizing seen with
  | nil => simp [debounce]
  | cons event events ih =>
    obtain ⟨hfirst, hclock⟩ := List.pairwise_cons.mp hclock
    have hseen' : ∀ e ∈ events, ∀ prev, seen.lookup (key e) = some prev → prev ≤ time e :=
      fun e he => hseen e (.tail _ he)
    rw [debounce]
    split
    · next hpasses =>
      have hgap := passes_iff.mp hpasses
      have hinsert : ∀ e ∈ events, ∀ prev,
          (seen.insert (key event) (time event)).lookup (key e) = some prev → prev ≤ time e := by
        intro e he prev hprev
        by_cases hkey : key e = key event
        · rw [hkey, AList.lookup_insert] at hprev
          exact Option.some.inj hprev ▸ hfirst e he
        · rw [AList.lookup_insert_ne hkey] at hprev
          exact hseen' e he prev hprev
      obtain ⟨hlast, hapart, hcovered⟩ := ih hinsert hclock
      have hnext : ∀ e ∈ (debounce key time gap (seen.insert (key event) (time event)) events).1,
          key e = key event → time event + gap ≤ time e := by
        intro e he hkey
        exact hlast e he (time event) (hkey ▸ AList.lookup_insert _)
      refine ⟨fun e he prev hprev => ?_, ?_, fun e he => ?_⟩
      · rcases List.mem_cons.mp he with rfl | he
        · have hle := hseen e (.head _) prev hprev
          have hge := hgap prev hprev
          omega
        · by_cases hkey : key e = key event
          · have hle := hseen event (.head _) prev (hkey ▸ hprev)
            have hge := hnext e he hkey
            omega
          · exact hlast e he prev ((AList.lookup_insert_ne hkey).trans hprev)
      · exact List.pairwise_cons.mpr ⟨fun e he hkey => hnext e he hkey.symm, hapart⟩
      · rcases List.mem_cons.mp he with rfl | he
        · exact .inr ⟨e, .head _, rfl, le_refl _, .inl rfl⟩
        · rcases hcovered e he with ⟨prev, hprev, hlt⟩ | ⟨e', he', hclose⟩
          · by_cases hkey : key e = key event
            · rw [hkey, AList.lookup_insert] at hprev
              obtain rfl := Option.some.inj hprev
              exact .inr ⟨event, .head _, hkey.symm, hfirst e he, .inr hlt⟩
            · rw [AList.lookup_insert_ne hkey] at hprev
              exact .inl ⟨prev, hprev, hlt⟩
          · exact .inr ⟨e', .tail _ he', hclose⟩
    · next hblocked =>
      obtain ⟨hlast, hapart, hcovered⟩ := ih hseen' hclock
      refine ⟨hlast, hapart, fun e he => ?_⟩
      rcases List.mem_cons.mp he with rfl | he
      · rw [passes_iff] at hblocked
        simp only [not_forall, Nat.not_le] at hblocked
        obtain ⟨prev, hprev, hlt⟩ := hblocked
        have hle := hseen e (.head _) prev hprev
        exact .inl ⟨prev, hprev, by omega⟩
      · exact hcovered e he

/-- From an empty table on. -/
theorem debounced_debounce (hclock : events.Pairwise fun e e' => time e ≤ time e') :
    Debounced key time gap events (debounce key time gap ∅ events).1 := by
  have hempty : ∀ e ∈ events, ∀ prev,
      (∅ : Table κ Nat).lookup (key e) = some prev → prev ≤ time e := by
    intro e _ prev hprev
    rw [AList.lookup_empty] at hprev
    cases hprev
  obtain ⟨-, hapart, hcovered⟩ := debounce_spec hempty hclock
  refine ⟨debounce_sublist, hapart, fun e he => ?_⟩
  rcases hcovered e he with ⟨prev, hprev, -⟩ | hclose
  · rw [AList.lookup_empty] at hprev
    cases hprev
  · exact hclose

end ActiveDefense
