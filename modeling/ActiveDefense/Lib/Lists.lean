import Mathlib.Data.List.Forall2
import Mathlib.Data.List.Sort

/-!
# Lists that are decoded, and lists that are ranked

Where each element of a list can be decoded, so can the list (`exists_mapM`); and what the elements
have in common with what they decode to carries over to the list: an order, a member, a length. Of
the elements of a list, sorted by a key, the first `k` are `k` of them, none of which has a larger
key than one that is left out (`take_mergeSort`).
-/

namespace ActiveDefense

/-! ## Element by element -/

section

variable {ε ρ α : Type} {R : ρ → α → Prop} {rows : List ρ} {as : List α}

/-- Where each element can be decoded, all can. -/
theorem exists_mapM {f : ρ → Except ε α} (h : ∀ r ∈ rows, ∃ a, f r = .ok a ∧ R r a) :
    ∃ as, rows.mapM f = .ok as ∧ List.Forall₂ R rows as := by
  induction rows with
  | nil => exact ⟨[], rfl, .nil⟩
  | cons r rows ih =>
    obtain ⟨a, ha, hR⟩ := h r (.head _)
    obtain ⟨as, has, hrest⟩ := ih fun r' hr' => h r' (List.mem_cons_of_mem _ hr')
    refine ⟨a :: as, ?_, .cons hR hrest⟩
    rw [List.mapM_cons, ha]
    change (rows.mapM f >>= fun as => pure (a :: as)) = _
    rw [has]
    rfl

/-- What an element of the result comes from. -/
theorem exists_of_mem_right (h : List.Forall₂ R rows as) {a : α} (ha : a ∈ as) :
    ∃ r ∈ rows, R r a := by
  induction h with
  | nil => cases ha
  | cons hR _ ih =>
    rcases List.mem_cons.mp ha with rfl | ha
    · exact ⟨_, .head _, hR⟩
    · obtain ⟨r, hr, hRr⟩ := ih ha
      exact ⟨r, List.mem_cons_of_mem _ hr, hRr⟩

/-- What an element comes to in the result. -/
theorem exists_of_mem_left (h : List.Forall₂ R rows as) {r : ρ} (hr : r ∈ rows) :
    ∃ a ∈ as, R r a := exists_of_mem_right h.flip hr

/-- An order of the elements is one of the result. -/
theorem pairwise_of_forall₂ {S : ρ → ρ → Prop} {T : α → α → Prop} (h : List.Forall₂ R rows as)
    (hST : ∀ r s a b, R r a → R s b → S r s → T a b) (hrows : rows.Pairwise S) : as.Pairwise T := by
  induction h with
  | nil => exact .nil
  | cons hR hrest ih =>
    obtain ⟨hfirst, hlater⟩ := List.pairwise_cons.mp hrows
    refine List.pairwise_cons.mpr ⟨fun b hb => ?_, ih hlater⟩
    obtain ⟨s, hs, hRs⟩ := exists_of_mem_right hrest hb
    exact hST _ _ _ _ hR hRs (hfirst s hs)

end

/-! ## The first of a list that is sorted -/

section

variable {α κ : Type} [LinearOrder κ] (key : α → κ)

theorem not_decide_lt_iff (a b : α) : (!decide (key b < key a)) = true ↔ key a ≤ key b := by
  simp

theorem pairwise_mergeSort_key (l : List α) :
    (l.mergeSort fun a b => !decide (key b < key a)).Pairwise fun a b => key a ≤ key b := by
  refine (List.pairwise_mergeSort ?_ ?_ l).imp fun h => (not_decide_lt_iff key _ _).mp h
  · intro a b c hab hbc
    rw [not_decide_lt_iff] at hab hbc ⊢
    exact hab.trans hbc
  · intro a b
    rw [Bool.or_eq_true, not_decide_lt_iff, not_decide_lt_iff]
    exact le_total _ _

/-- The first elements in the order of a key: there are as many as there can be, they are in order,
none is taken twice, and what is not among them has a key that is at least as large as theirs. -/
theorem take_mergeSort (l : List α) (k : Nat) :
    let first := (l.mergeSort fun a b => !decide (key b < key a)).take k
    first.length = min k l.length ∧ first.Pairwise (fun a b => key a ≤ key b) ∧
    first.Subperm l ∧ ∀ b ∈ l, b ∈ first ∨ ∀ a ∈ first, key a ≤ key b := by
  intro first
  obtain ⟨sorted, hsorted⟩ : ∃ s, (l.mergeSort fun a b => !decide (key b < key a)) = s := ⟨_, rfl⟩
  have hperm : sorted.Perm l := hsorted ▸ List.mergeSort_perm l _
  have hfirst : first = sorted.take k := congrArg (List.take k) hsorted
  have hpair : (sorted.take k ++ sorted.drop k).Pairwise fun a b => key a ≤ key b := by
    rw [List.take_append_drop]
    exact hsorted ▸ pairwise_mergeSort_key key l
  obtain ⟨htake, -, hcross⟩ := List.pairwise_append.mp hpair
  rw [hfirst]
  refine ⟨?_, htake, (List.take_sublist k sorted).subperm.trans hperm.subperm, ?_⟩
  · rw [List.length_take, hperm.length_eq]
  · intro b hb
    rw [← hperm.mem_iff, ← List.take_append_drop k sorted] at hb
    rcases List.mem_append.mp hb with hb | hb
    · exact .inl hb
    · exact .inr fun a ha => hcross a ha b hb

end

end ActiveDefense
