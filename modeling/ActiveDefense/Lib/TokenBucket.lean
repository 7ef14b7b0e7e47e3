import Mathlib.Algebra.Field.Basic
import Mathlib.Algebra.Order.Field.Basic
import Mathlib.Data.List.Perm.Basic
import Mathlib.Tactic.Linarith
import Mathlib.Tactic.Ring

/-!
# Token buckets whose tokens are promised first

A bucket holds at most `burst` tokens and gains `rate` of them in a unit of time. A grant is
promised at one time and paid for later; it may be withdrawn in between. `Metered` says that what
the bucket holds and what it has paid for since any time came in since then. As long as each promise
finds a token beside those promised already, the grants of any interval of time are then at most
`burst` and what comes in during the interval. Tokens may be lost as well (`Metered.lower`), as they
are where a sum is rounded down. `Rested` is a bucket that is full and has promised nothing, so that
it need not be remembered. `Sourced` says the converse: since the bucket was full, only grants have
taken tokens from it.
-/

namespace ActiveDefense

variable {K : Type} [Field K] [LinearOrder K] [IsStrictOrderedRing K]

/-- The number of times in an interval. -/
def countIn (t₀ t₁ : K) (ts : List K) : Nat := ts.countP fun t => decide (t₀ ≤ t ∧ t ≤ t₁)

omit [IsStrictOrderedRing K] [Field K] in
theorem countIn_cons {t₀ t₁ t : K} {ts : List K} :
    countIn t₀ t₁ (t :: ts) = countIn t₀ t₁ ts + if t₀ ≤ t ∧ t ≤ t₁ then 1 else 0 := by
  simp [countIn, List.countP_cons]

omit [IsStrictOrderedRing K] [Field K] in
theorem countIn_append {t₀ t₁ : K} {ts us : List K} :
    countIn t₀ t₁ (ts ++ us) = countIn t₀ t₁ ts + countIn t₀ t₁ us :=
  List.countP_append

omit [IsStrictOrderedRing K] [Field K] in
theorem countIn_le_length {t₀ t₁ : K} {ts : List K} : countIn t₀ t₁ ts ≤ ts.length :=
  List.countP_le_length

omit [IsStrictOrderedRing K] [Field K] in
/-- Nothing is counted after the last time. -/
theorem countIn_le_of_le {t₀ t₁ last : K} {ts : List K} (h : ∀ t ∈ ts, t ≤ last) :
    countIn t₀ t₁ ts ≤ countIn t₀ last ts := by
  refine List.countP_mono_left fun t ht hin => ?_
  exact decide_eq_true ⟨(of_decide_eq_true hin).1, h t ht⟩

omit [IsStrictOrderedRing K] [Field K] in
theorem countIn_eq_zero {t₀ t₁ last : K} {ts : List K} (h : ∀ t ∈ ts, t ≤ last)
    (hlast : last < t₀) : countIn t₀ t₁ ts = 0 := by
  refine List.countP_eq_zero.mpr fun t ht hin => ?_
  exact absurd ((of_decide_eq_true hin).1.trans (h t ht)) (not_le.mpr hlast)

/-- The bucket holds and has paid for no more than what came in. -/
structure Metered (burst rate tokens last : K) (granted promised : List K) : Prop where
  tokens_le : tokens ≤ burst
  le_last : ∀ t ∈ granted ++ promised, t ≤ last
  paid : ∀ t₀ ≤ last, (countIn t₀ last granted : K) + tokens ≤ burst + rate * (last - t₀)
  window : ∀ t₀ t₁, t₀ ≤ t₁ →
    (countIn t₀ t₁ (granted ++ promised) : K) ≤ burst + rate * (t₁ - t₀)

/-- A bucket that has been full since its last grant could. -/
structure Rested (burst rate now : K) (granted : List K) : Prop where
  le_now : ∀ t ∈ granted, t ≤ now
  paid : ∀ t₀ ≤ now, (countIn t₀ now granted : K) ≤ rate * (now - t₀)
  window : ∀ t₀ t₁, t₀ ≤ t₁ → (countIn t₀ t₁ granted : K) ≤ burst + rate * (t₁ - t₀)

variable {burst rate tokens last now c : K} {granted promised promised' : List K}

namespace Rested

/-- A bucket that was never used. -/
theorem new (hburst : 0 ≤ burst) (hrate : 0 ≤ rate) : Rested burst rate now [] where
  le_now := nofun
  paid t₀ h := by
    simpa [countIn] using mul_nonneg hrate (sub_nonneg.mpr h)
  window t₀ t₁ h := by
    simpa [countIn] using add_nonneg hburst (mul_nonneg hrate (sub_nonneg.mpr h))

/-- Time passes. -/
theorem later (h : Rested burst rate last granted) (hrate : 0 ≤ rate) (hle : last ≤ now) :
    Rested burst rate now granted where
  le_now t ht := (h.le_now t ht).trans hle
  paid t₀ ht₀ := by
    have hcount : (countIn t₀ now granted : K) ≤ countIn t₀ last granted := by
      exact_mod_cast countIn_le_of_le h.le_now
    rcases le_or_gt t₀ last with hold | hnew
    · have hmono := mul_le_mul_of_nonneg_left (sub_le_sub_right hle t₀) hrate
      exact hcount.trans ((h.paid t₀ hold).trans hmono)
    · rw [countIn_eq_zero h.le_now hnew, Nat.cast_zero]
      exact mul_nonneg hrate (sub_nonneg.mpr ht₀)
  window := h.window

/-- A full bucket is taken for it. -/
theorem enter (h : Rested burst rate now granted) : Metered burst rate burst now granted [] where
  tokens_le := le_rfl
  le_last := by simpa using h.le_now
  paid t₀ ht₀ := by
    have hpaid := h.paid t₀ ht₀
    linarith
  window := by simpa using h.window

end Rested

namespace Metered

/-- Tokens are lost. -/
theorem lower (h : Metered burst rate tokens last granted promised) {fewer : K}
    (hle : fewer ≤ tokens) : Metered burst rate fewer last granted promised where
  tokens_le := hle.trans h.tokens_le
  le_last := h.le_last
  paid t₀ ht₀ := (add_le_add_right hle _).trans (h.paid t₀ ht₀)
  window := h.window

/-- Time passes, and what came in is added up to the bound. -/
theorem refill (h : Metered burst rate tokens last granted promised) (hrate : 0 ≤ rate)
    (hle : last ≤ now) : Metered burst rate (min (tokens + rate * (now - last)) burst) now granted
      promised where
  tokens_le := min_le_right _ _
  le_last t ht := (h.le_last t ht).trans hle
  paid t₀ ht₀ := by
    have hgranted : ∀ t ∈ granted, t ≤ last := fun t ht => h.le_last t (List.mem_append_left _ ht)
    have hcount : (countIn t₀ now granted : K) ≤ countIn t₀ last granted := by
      exact_mod_cast countIn_le_of_le hgranted
    rcases le_or_gt t₀ last with hold | hnew
    · have hpaid := h.paid t₀ hold
      have hmin := min_le_left (tokens + rate * (now - last)) burst
      have hsplit : rate * (now - t₀) = rate * (now - last) + rate * (last - t₀) := by ring
      linarith
    · have hmin := min_le_right (tokens + rate * (now - last)) burst
      have hgain := mul_nonneg hrate (sub_nonneg.mpr ht₀)
      rw [countIn_eq_zero hgranted hnew, Nat.cast_zero]
      linarith
  window := h.window

/-- A grant is promised at the time of the refill, if there is a token for it beside those promised
already. -/
theorem promise (h : Metered burst rate tokens last granted promised) (hrate : 0 ≤ rate)
    (htoken : (promised.length : K) + 1 ≤ tokens) :
    Metered burst rate tokens last granted (last :: promised) where
  tokens_le := h.tokens_le
  le_last t ht := by
    rcases List.mem_append.mp ht with ht | ht
    · exact h.le_last t (List.mem_append_left _ ht)
    · rcases List.mem_cons.mp ht with rfl | ht
      · exact le_rfl
      · exact h.le_last t (List.mem_append_right _ ht)
  paid := h.paid
  window t₀ t₁ ht := by
    have hwindow := h.window t₀ t₁ ht
    rw [countIn_append] at hwindow ⊢
    rw [countIn_cons]
    split
    · next hin =>
      have hpaid := h.paid t₀ hin.1
      have hcount : (countIn t₀ t₁ granted : K) ≤ countIn t₀ last granted := by
        exact_mod_cast countIn_le_of_le fun t ht => h.le_last t (List.mem_append_left _ ht)
      have hpromised : (countIn t₀ t₁ promised : K) ≤ promised.length := by
        exact_mod_cast countIn_le_length
      have hmono := mul_le_mul_of_nonneg_left (sub_le_sub_right hin.2 t₀) hrate
      push_cast
      linarith
    · exact hwindow

omit [IsStrictOrderedRing K] in
/-- The order of the promises does not matter. -/
theorem perm (h : Metered burst rate tokens last granted promised)
    (hperm : promised.Perm promised') : Metered burst rate tokens last granted promised' where
  tokens_le := h.tokens_le
  le_last t ht := h.le_last t ((hperm.append_left granted).mem_iff.mpr ht)
  paid := h.paid
  window t₀ t₁ ht := by
    have heq : countIn t₀ t₁ (granted ++ promised) = countIn t₀ t₁ (granted ++ promised') :=
      (hperm.append_left granted).countP_eq _
    rw [← heq]
    exact h.window t₀ t₁ ht

/-- A promise is withdrawn. -/
theorem withdraw (h : Metered burst rate tokens last granted (c :: promised)) :
    Metered burst rate tokens last granted promised where
  tokens_le := h.tokens_le
  le_last t ht := by
    refine h.le_last t ?_
    rcases List.mem_append.mp ht with ht | ht
    · exact List.mem_append_left _ ht
    · exact List.mem_append_right _ (List.mem_cons_of_mem _ ht)
  paid := h.paid
  window t₀ t₁ ht := by
    have hwindow := h.window t₀ t₁ ht
    have hle : countIn t₀ t₁ (granted ++ promised) ≤ countIn t₀ t₁ (granted ++ c :: promised) := by
      rw [countIn_append, countIn_append, countIn_cons]
      omega
    exact le_trans (by exact_mod_cast hle) hwindow

/-- A promise is kept: the grant is made, and its token taken. -/
theorem spend (h : Metered burst rate tokens last granted (c :: promised)) :
    Metered burst rate (tokens - 1) last (c :: granted) promised where
  tokens_le := by
    have hle := h.tokens_le
    linarith
  le_last t ht := h.le_last t (List.perm_middle.mem_iff.mpr ht)
  paid t₀ ht₀ := by
    have hpaid := h.paid t₀ ht₀
    rw [countIn_cons]
    split <;> push_cast <;> linarith
  window t₀ t₁ ht := by
    have heq : countIn t₀ t₁ (granted ++ c :: promised) =
        countIn t₀ t₁ (c :: granted ++ promised) :=
      List.perm_middle.countP_eq _
    rw [← heq]
    exact h.window t₀ t₁ ht

/-- A bucket that would be full by now, and has promised nothing, can be forgotten. -/
theorem rest (h : Metered burst rate tokens last granted []) (hrate : 0 ≤ rate) (hle : last ≤ now)
    (hfull : burst ≤ tokens + rate * (now - last)) : Rested burst rate now granted where
  le_now t ht := (h.le_last t (List.mem_append_left _ ht)).trans hle
  paid t₀ ht₀ := by
    have hpaid := (h.refill hrate hle).paid t₀ ht₀
    rw [min_eq_right hfull] at hpaid
    linarith
  window := by simpa using h.window

end Metered

/-! ## What a bucket has left -/

/-- Since some time at which it was full, the bucket has lost no token but to the grants. -/
def Sourced (burst rate tokens last : K) (granted : List K) : Prop :=
  ∃ t₀ ≤ last, burst + rate * (last - t₀) ≤ tokens + countIn t₀ last granted

namespace Sourced

/-- A bucket that is full. -/
theorem full : Sourced burst rate burst now granted := by
  refine ⟨now, le_rfl, ?_⟩
  rw [sub_self, mul_zero, add_zero]
  exact le_add_of_nonneg_right (Nat.cast_nonneg _)

/-- Time passes, and what came in is added up to the bound. -/
theorem refill (h : Sourced burst rate tokens last granted) (hle : last ≤ now) :
    Sourced burst rate (min (tokens + rate * (now - last)) burst) now granted := by
  rcases le_total (tokens + rate * (now - last)) burst with hroom | hfull
  · obtain ⟨t₀, ht₀, hpaid⟩ := h
    refine ⟨t₀, ht₀.trans hle, ?_⟩
    have hcount : (countIn t₀ last granted : K) ≤ countIn t₀ now granted := by
      refine Nat.cast_le.mpr (List.countP_mono_left fun t _ hin => decide_eq_true ?_)
      exact ⟨(of_decide_eq_true hin).1, (of_decide_eq_true hin).2.trans hle⟩
    rw [min_eq_left hroom]
    linarith
  · rw [min_eq_right hfull]
    exact full

/-- A grant takes its token. -/
theorem spend (h : Sourced burst rate tokens last granted) :
    Sourced burst rate (tokens - 1) last (last :: granted) := by
  obtain ⟨t₀, ht₀, hpaid⟩ := h
  refine ⟨t₀, ht₀, ?_⟩
  rw [countIn_cons, if_pos ⟨ht₀, le_rfl⟩]
  push_cast
  linarith

/-- As long as one more grant stays within what the burst and the rate allow, there is a token. -/
theorem one_le (h : Sourced burst rate tokens last granted)
    (hroom : ∀ t₀ ≤ last, (countIn t₀ last granted : K) + 1 ≤ burst + rate * (last - t₀)) :
    1 ≤ tokens := by
  obtain ⟨t₀, ht₀, hpaid⟩ := h
  have hnext := hroom t₀ ht₀
  linarith

end Sourced

end ActiveDefense
