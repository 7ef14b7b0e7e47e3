import ActiveDefense.Lib.Run
import Mathlib.Data.Set.Card

/-!
# A bounded set with a separate check

Threads insert keys into a set that is not to hold more than `bound` of them. Before it inserts, a
thread checks that the key is in the set or the set holds fewer than `bound` keys; the check and
the insertion are two steps. What the bound has to be compared with is therefore not the set but
the `reserved` keys, those in the set and those that threads have been admitted with: while every
check meets `Slots.Reserves` the bound holds (`Slots.Step.reserved_le`), and once the reserved keys
are more than the bound the set can be driven past it (`Slots.exists_overflow`).
-/

namespace ActiveDefense

variable {ι κ : Type}

/-- The keys in the set, and for each thread the key it was admitted with. -/
structure Slots (ι κ : Type) where
  present : Set κ
  admitted : ι → Option κ

namespace Slots

/-- What a thread does to the set. -/
inductive Action (ι κ : Type) where
  | grant (i : ι) (k : κ)
  | insert (i : ι)
  | withdraw (i : ι)
  | remove (gone : Set κ)
  | skip

/-- The steps. -/
inductive Step [DecidableEq ι] (bound : ℕ∞) : Slots ι κ → Action ι κ → Slots ι κ → Prop
  | grant {s : Slots ι κ} {i : ι} {k : κ} : k ∈ s.present ∨ s.present.encard < bound →
      Step bound s (.grant i k) { s with admitted := Function.update s.admitted i (some k) }
  | insert {s : Slots ι κ} {i : ι} {k : κ} : s.admitted i = some k →
      Step bound s (.insert i)
        { present := Insert.insert k s.present, admitted := Function.update s.admitted i none }
  | withdraw {s : Slots ι κ} {i : ι} :
      Step bound s (.withdraw i) { s with admitted := Function.update s.admitted i none }
  | remove {s : Slots ι κ} {gone : Set κ} :
      Step bound s (.remove gone) { s with present := s.present \ gone }
  | skip {s : Slots ι κ} : Step bound s .skip s

/-- The keys in the set and those that are about to be inserted. -/
def reserved (s : Slots ι κ) : Set κ := {k | k ∈ s.present ∨ ∃ i, s.admitted i = some k}

/-- An admission reserves no key past the bound. -/
def Reserves (bound : ℕ∞) (s : Slots ι κ) : Action ι κ → Prop
  | .grant _ k => k ∈ s.reserved ∨ s.reserved.encard < bound
  | _ => True

variable {bound : ℕ∞} {s t : Slots ι κ} {a : Action ι κ}

variable [DecidableEq ι]

/-- An admission reserves its key, and no other that was not. -/
theorem reserved_grant {i : ι} {k : κ} :
    reserved { s with admitted := Function.update s.admitted i (some k) } ⊆
      Insert.insert k s.reserved := by
  rintro k' (hpresent | ⟨j, hj⟩)
  · exact .inr (.inl hpresent)
  · dsimp only at hj
    by_cases hij : j = i
    · rw [hij, Function.update_self, Option.some.injEq] at hj
      exact .inl hj.symm
    · rw [Function.update_of_ne hij] at hj
      exact .inr (.inr ⟨j, hj⟩)

/-- A thread that is done with its key reserves nothing more. -/
theorem admitted_of_update_none {i j : ι} {k : κ}
    (h : Function.update s.admitted i none j = some k) : s.admitted j = some k := by
  by_cases hij : j = i
  · rw [hij, Function.update_self] at h
    cases h
  · rwa [Function.update_of_ne hij] at h

/-- The step lemma: an admission adds its key to the reserved ones, no other step adds any. -/
theorem Step.reserved_subset (h : Step bound s a t) :
    (∃ i k, a = .grant i k ∧ t.reserved ⊆ Insert.insert k s.reserved) ∨
      t.reserved ⊆ s.reserved := by
  cases h with
  | grant => exact .inl ⟨_, _, rfl, reserved_grant⟩
  | insert hi =>
    right
    rintro k ((rfl | hpresent) | ⟨j, hj⟩)
    · exact .inr ⟨_, hi⟩
    · exact .inl hpresent
    · exact .inr ⟨j, admitted_of_update_none hj⟩
  | withdraw =>
    right
    rintro k (hpresent | ⟨j, hj⟩)
    · exact .inl hpresent
    · exact .inr ⟨j, admitted_of_update_none hj⟩
  | remove =>
    right
    rintro k (hpresent | hj)
    · exact .inl hpresent.1
    · exact .inr hj
  | skip => exact .inr subset_rfl

/-- While the checks reserve no key past the bound, no more keys than that are reserved. -/
theorem Step.reserved_le (h : Step bound s a t) (hreserves : s.Reserves bound a)
    (hs : s.reserved.encard ≤ bound) : t.reserved.encard ≤ bound := by
  obtain ⟨i, k, rfl, hsub⟩ | hsub := h.reserved_subset
  · obtain hk | hlt := hreserves
    · rw [Set.insert_eq_of_mem hk] at hsub
      exact (Set.encard_le_encard hsub).trans hs
    · calc t.reserved.encard ≤ (Insert.insert k s.reserved).encard := Set.encard_le_encard hsub
        _ ≤ s.reserved.encard + 1 := Set.encard_insert_le _ _
        _ ≤ bound := Order.add_one_le_of_lt hlt
  · exact (Set.encard_le_encard hsub).trans hs

/-- An admission that does not meet the condition leaves more keys reserved than the bound. -/
theorem lt_reserved_of_not_reserves {i : ι} {k : κ} (h : ¬ s.Reserves bound (.grant i k))
    (hi : s.admitted i = none) (hbound : bound ≠ ⊤) :
    bound < (reserved { s with admitted := Function.update s.admitted i (some k) }).encard := by
  obtain ⟨hk, hge⟩ := not_or.mp h
  have hsub : Insert.insert k s.reserved ⊆
      reserved { s with admitted := Function.update s.admitted i (some k) } := by
    rintro k' (rfl | hpresent | ⟨j, hj⟩)
    · exact .inr ⟨i, Function.update_self ..⟩
    · exact .inl hpresent
    · refine .inr ⟨j, ?_⟩
      have hij : j ≠ i := by
        rintro rfl
        rw [hi] at hj
        cases hj
      rwa [← Function.update_of_ne hij (some k) s.admitted] at hj
  refine lt_of_lt_of_le ?_ (Set.encard_le_encard hsub)
  calc bound < bound + 1 := (ENat.lt_add_one_iff hbound).mpr le_rfl
    _ ≤ s.reserved.encard + 1 := by
      gcongr
      exact not_lt.mp hge
    _ = (Insert.insert k s.reserved).encard := (Set.encard_insert_of_notMem hk).symm

section
variable {σ α : Type} {step : σ → α → σ → Prop} {slots : σ → Slots ι κ}

/-- In a system whose threads can always insert the key they were admitted with, every finite set
of reserved keys can be made present. -/
theorem exists_present
    (hinsert : ∀ s i k, (slots s).admitted i = some k →
      ∃ a t, step s a t ∧ Step bound (slots s) (.insert i) (slots t))
    {s : σ} {keys : Finset κ} (h : (keys : Set κ) ⊆ (slots s).reserved) :
    ∃ t, Reachable step s t ∧ (keys : Set κ) ⊆ (slots t).present ∧
      (slots s).reserved ⊆ (slots t).reserved := by
  classical
  induction keys using Finset.induction_on with
  | empty => exact ⟨s, .refl, by simp, subset_rfl⟩
  | insert k keys _ ih =>
    rw [Finset.coe_insert, Set.insert_subset_iff] at h
    obtain ⟨t, hreach, hpresent, hreserved⟩ := ih h.2
    rw [Finset.coe_insert]
    obtain hk | ⟨i, hi⟩ := hreserved h.1
    · exact ⟨t, hreach, Set.insert_subset hk hpresent, hreserved⟩
    · obtain ⟨a, u, hst, hins⟩ := hinsert t i k hi
      generalize hu : slots u = su at hins
      refine ⟨u, hreach.tail hst, ?_⟩
      cases hins with
      | insert hi' =>
        cases hi.symm.trans hi'
        rw [hu]
        refine ⟨Set.insert_subset_insert hpresent, fun k' hk' => ?_⟩
        obtain hpresent' | ⟨j, hj⟩ := hreserved hk'
        · exact .inl (.inr hpresent')
        · by_cases hij : j = i
          · rw [hij, hi, Option.some.injEq] at hj
            exact .inl (.inl hj.symm)
          · exact .inr ⟨j, (Function.update_of_ne hij ..).trans hj⟩

/-- Where more keys are reserved than the bound, the set can go past it. -/
theorem exists_overflow
    (hinsert : ∀ s i k, (slots s).admitted i = some k →
      ∃ a t, step s a t ∧ Step bound (slots s) (.insert i) (slots t))
    {s : σ} (h : bound < (slots s).reserved.encard) :
    ∃ t, Reachable step s t ∧ bound < (slots t).present.encard := by
  obtain ⟨keys, hsub, hcard⟩ := Set.exists_subset_encard_eq (Order.add_one_le_of_lt h)
  have hbound : bound ≠ ⊤ := (lt_of_lt_of_le h le_top).ne
  have hfinite : keys.Finite := Set.encard_ne_top_iff.mp (by rw [hcard]; simpa using hbound)
  have hreserved : (hfinite.toFinset : Set κ) ⊆ (slots s).reserved := by
    rwa [Set.Finite.coe_toFinset]
  obtain ⟨t, hreach, hpresent, -⟩ := exists_present hinsert hreserved
  rw [Set.Finite.coe_toFinset] at hpresent
  refine ⟨t, hreach, lt_of_lt_of_le ?_ (Set.encard_le_encard hpresent)⟩
  rw [hcard]
  exact (ENat.lt_add_one_iff hbound).mpr le_rfl

/-- Where a thread was admitted without room for its key, the set can go past the bound. -/
theorem exists_overflow_of_not_reserves
    (hinsert : ∀ s i k, (slots s).admitted i = some k →
      ∃ a t, step s a t ∧ Step bound (slots s) (.insert i) (slots t))
    {s t : σ} {i : ι} {k : κ} (h : ¬ (slots s).Reserves bound (.grant i k))
    (hi : (slots s).admitted i = none) (hbound : bound ≠ ⊤)
    (ht : slots t =
      { slots s with admitted := Function.update (slots s).admitted i (some k) }) :
    ∃ u, Reachable step t u ∧ bound < (slots u).present.encard := by
  have hover := lt_reserved_of_not_reserves h hi hbound
  rw [← ht] at hover
  exact exists_overflow hinsert hover

end

end Slots

end ActiveDefense
