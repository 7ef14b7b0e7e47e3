import Mathlib.Data.List.Basic

/-!
# Limiters that remember the times of the last window

Before an event the limiter forgets the times that are a window or more ago, and admits the event if
fewer than `limit` are left; it stores a time for the event when that is over. The event happens
between the two readings of the clock. `Limited` says that nothing that still counts was forgotten;
then no window, wherever it begins, has more than `limit` events.
-/

namespace ActiveDefense

variable {window limit : Nat}

/-- The times that are less than a window ago. -/
def within (window now : Nat) (times : List Nat) : List Nat :=
  times.filter fun t => decide (now - t < window)

theorem within_append {now : Nat} {times times' : List Nat} :
    within window now (times ++ times') = within window now times ++ within window now times' :=
  List.filter_append ..

/-- What counts later counts now. -/
theorem within_within {now now' : Nat} {times : List Nat} (h : now ≤ now') :
    within window now' (within window now times) = within window now' times := by
  unfold within
  rw [List.filter_filter]
  refine List.filter_congr fun t _ => ?_
  rw [Bool.and_eq_left_iff_imp]
  simp only [decide_eq_true_eq]
  omega

/-- Where what is to be dropped is at the front, the rest is what is not to be dropped. -/
theorem dropWhile_eq_filter {α : Type} {p : α → Bool} {xs : List α}
    (h : xs.Pairwise fun x y => p y = true → p x = true) :
    xs.dropWhile p = xs.filter fun x => !p x := by
  induction xs with
  | nil => rfl
  | cons x xs ih =>
    obtain ⟨hfirst, hrest⟩ := List.pairwise_cons.mp h
    cases hx : p x with
    | true => rw [List.dropWhile_cons_of_pos hx, List.filter_cons_of_neg (by simp [hx]), ih hrest]
    | false =>
      rw [List.dropWhile_cons_of_neg (by simp [hx])]
      refine (List.filter_eq_self.mpr fun y hy => ?_).symm
      rcases List.mem_cons.mp hy with rfl | hy
      · simp [hx]
      · have hnot : p y ≠ true := fun hp => by simp [hfirst y hy hp] at hx
        simpa using hnot

theorem dropWhile_congr {α : Type} {p q : α → Bool} {xs : List α} (h : ∀ x ∈ xs, p x = q x) :
    xs.dropWhile p = xs.dropWhile q := by
  induction xs with
  | nil => rfl
  | cons x xs ih =>
    rw [List.dropWhile_cons, List.dropWhile_cons, h x (.head _),
      ih fun y hy => h y (List.mem_cons_of_mem _ hy)]

/-- Where the times are in order, those that are over are at the front. A time that is exactly the
span ago still counts. -/
theorem dropWhile_eq_within {span now : Nat} {times : List Nat} (h : times.Pairwise (· ≤ ·)) :
    times.dropWhile (fun t => decide (span < now - t)) = within (span + 1) now times := by
  rw [dropWhile_eq_filter, within]
  · refine List.filter_congr fun t _ => ?_
    rw [← decide_not]
    exact decide_eq_decide.mpr (by omega)
  · refine h.imp fun hle hover => ?_
    rw [decide_eq_true_eq] at hover ⊢
    omega

/-- An event: when it happened, and the time that was stored for it. -/
structure Stamped where
  happened : Nat
  stored : Nat

/-- The number of events in the window that begins at a time. -/
def countFrom (window t : Nat) (events : List Stamped) : Nat :=
  events.countP fun ev => decide (t ≤ ev.happened ∧ ev.happened < t + window)

/-- The limiter remembers of the events what still counts, and has admitted no more than `limit` in
any window. -/
structure Limited (window limit : Nat) (events : List Stamped) (recent : List Nat) (clock : Nat) :
    Prop where
  ordered : ∀ ev ∈ events, ev.happened ≤ ev.stored
  remembered : ∀ now, clock ≤ now →
    within window now (events.map (·.stored)) = within window now recent
  bounded : ∀ t, countFrom window t events ≤ limit
  few : recent.length ≤ limit

theorem limited_nil (clock : Nat) : Limited window limit [] [] clock where
  ordered := nofun
  remembered _ _ := rfl
  bounded _ := Nat.zero_le _
  few := Nat.zero_le _

/-- Time goes on. -/
theorem Limited.later {events : List Stamped} {recent : List Nat} {clock clock' : Nat}
    (h : Limited window limit events recent clock) (hclock : clock ≤ clock') :
    Limited window limit events recent clock' :=
  ⟨h.ordered, fun now hnow => h.remembered now (by omega), h.bounded, h.few⟩

/-- The limiter forgets what does not count. -/
theorem Limited.forget {events : List Stamped} {recent : List Nat} {clock now : Nat}
    (h : Limited window limit events recent clock) (hnow : clock ≤ now) :
    Limited window limit events (within window now recent) now := by
  refine ⟨h.ordered, fun now' hnow' => ?_, h.bounded,
    Nat.le_trans (List.length_filter_le _ _) h.few⟩
  rw [h.remembered now' (by omega), within_within hnow']

/-- The events of a window that an event falls in still counted when it was admitted. -/
theorem Limited.countFrom_le {events : List Stamped} {recent : List Nat} {clock now t happened : Nat}
    (h : Limited window limit events recent clock) (hclock : clock ≤ now) (hnow : now ≤ happened)
    (hlast : happened < t + window) :
    countFrom window t events ≤ (within window now recent).length := by
  rw [← h.remembered now hclock, within, List.filter_map, List.length_map,
    ← List.countP_eq_length_filter]
  refine List.countP_mono_left fun ev hev hin => ?_
  have hordered := h.ordered ev hev
  simp only [decide_eq_true_eq, Function.comp_apply] at hin ⊢
  omega

/-- An event that the limiter admits. -/
theorem Limited.admit {events : List Stamped} {recent : List Nat} {clock now : Nat}
    (h : Limited window limit events recent clock) (ev : Stamped) (hclock : clock ≤ now)
    (hnow : now ≤ ev.happened)
    (hstored : ev.happened ≤ ev.stored) (hroom : (within window now recent).length < limit) :
    Limited window limit (events ++ [ev]) (within window now recent ++ [ev.stored])
      ev.stored := by
  refine ⟨fun ev' hev' => ?_, fun now' hnow' => ?_, fun t => ?_, ?_⟩
  · rcases List.mem_append.mp hev' with hev' | hev'
    · exact h.ordered ev' hev'
    · cases List.mem_singleton.mp hev'
      exact hstored
  · rw [List.map_append, within_append, within_append, (h.forget hclock).remembered now' (by omega)]
    rfl
  · unfold countFrom
    rw [List.countP_append, List.countP_singleton]
    split
    · next hin =>
      obtain ⟨-, hlast⟩ := of_decide_eq_true hin
      have hcount := h.countFrom_le hclock hnow hlast
      unfold countFrom at hcount
      omega
    · exact h.bounded t
  · rw [List.length_append, List.length_singleton]
    omega

/-! ## Tallies

A tally pushes the time of each hit, forgets from the front what is before the window that ends with
the hit, and fires if as many are left as it counts to; then it starts anew. It stops at the first
hit that is not over, so one that came late keeps others in. The hits are told apart by their places
in the sequence.
-/

section
variable (hit : Nat → Bool) (time : Nat → Nat) (span count : Nat)

/-- What is left of the hits when there is one at `n`. -/
def kept (hits : List Nat) (n : Nat) : List Nat :=
  (hits ++ [n]).dropWhile fun j => decide (time j < time n - span)

/-- The hits that the tally has when it comes to `n`. -/
def tallyAt : Nat → List Nat
  | 0 => []
  | n + 1 =>
    if hit n then
      if count ≤ (kept time span (tallyAt n) n).length then [] else kept time span (tallyAt n) n
    else tallyAt n

/-- The tally fires at `n`. -/
def firesAt (n : Nat) : Bool :=
  hit n && decide (count ≤ (kept time span (tallyAt hit time span count n) n).length)

/-- The hits before `n` since the tally fired. -/
def pendingAt (n : Nat) : List Nat :=
  (List.range n).filter fun j =>
    hit j && decide (∀ k < n, j ≤ k → firesAt hit time span count k = false)

variable {hit time span count} {n : Nat}

theorem tallyAt_succ_of_fires (h : firesAt hit time span count n = true) :
    tallyAt hit time span count (n + 1) = [] := by
  obtain ⟨hhit, hcount⟩ := Bool.and_eq_true_iff.mp h
  rw [tallyAt, if_pos hhit, if_pos (of_decide_eq_true hcount)]

theorem tallyAt_succ_of_hit (hhit : hit n = true) (h : firesAt hit time span count n = false) :
    tallyAt hit time span count (n + 1) = kept time span (tallyAt hit time span count n) n := by
  rw [firesAt, hhit, Bool.true_and, decide_eq_false_iff_not] at h
  rw [tallyAt, if_pos hhit, if_neg h]

theorem tallyAt_succ_of_not_hit (hhit : hit n = false) :
    tallyAt hit time span count (n + 1) = tallyAt hit time span count n := by
  rw [tallyAt, if_neg (by simp [hhit])]

theorem pendingAt_succ_of_fires (h : firesAt hit time span count n = true) :
    pendingAt hit time span count (n + 1) = [] := by
  refine List.filter_eq_nil_iff.mpr fun j hj hpending => ?_
  obtain ⟨-, hquiet⟩ := Bool.and_eq_true_iff.mp hpending
  have hle : j ≤ n := Nat.le_of_lt_succ (List.mem_range.mp hj)
  have hlast := of_decide_eq_true hquiet n (Nat.lt_succ_self n) hle
  rw [h] at hlast
  cases hlast

theorem pendingAt_succ_of_not_fires (h : firesAt hit time span count n = false) :
    pendingAt hit time span count (n + 1) =
      pendingAt hit time span count n ++ if hit n then [n] else [] := by
  rw [pendingAt, List.range_succ, List.filter_append]
  congr 1
  · refine List.filter_congr fun j _ => ?_
    congr 1
    refine decide_eq_decide.mpr
      ⟨fun hall k hk => hall k (Nat.lt_succ_of_lt hk), fun hall k hk => ?_⟩
    rcases Nat.lt_succ_iff_lt_or_eq.mp hk with hk | rfl
    · exact hall k hk
    · exact fun _ => h
  · have hquiet : ∀ k < n + 1, n ≤ k → firesAt hit time span count k = false := by
      intro k hk hle
      rwa [Nat.le_antisymm (Nat.le_of_lt_succ hk) hle]
    rw [List.filter_singleton, decide_eq_true hquiet, Bool.and_true, cond_eq_ite]

/-- The tally has the last ones of the hits since it fired. -/
theorem tallyAt_suffix (n : Nat) :
    tallyAt hit time span count n <:+ pendingAt hit time span count n := by
  induction n with
  | zero => exact List.nil_suffix
  | succ n ih =>
    cases hfires : firesAt hit time span count n with
    | true =>
      rw [tallyAt_succ_of_fires hfires]
      exact List.nil_suffix
    | false =>
      rw [pendingAt_succ_of_not_fires hfires]
      cases hhit : hit n with
      | true =>
        rw [tallyAt_succ_of_hit hhit hfires, if_pos rfl]
        exact (List.dropWhile_suffix _).trans (List.suffix_append_self_iff.mpr ih)
      | false =>
        rw [tallyAt_succ_of_not_hit hhit, if_neg (by simp), List.append_nil]
        exact ih

/-- The tally has fewer hits than it counts to. -/
theorem length_tallyAt_lt (n : Nat) : (tallyAt hit time span count n).length < max 1 count := by
  induction n with
  | zero => exact Nat.lt_of_lt_of_le Nat.zero_lt_one (Nat.le_max_left 1 count)
  | succ n ih =>
    rw [tallyAt]
    split
    · split
      · exact Nat.lt_of_lt_of_le Nat.zero_lt_one (Nat.le_max_left 1 count)
      · next hfew => exact Nat.lt_of_lt_of_le (Nat.lt_of_not_le hfew) (Nat.le_max_right 1 count)
    · exact ih

theorem mem_pendingAt {j : Nat} : j ∈ pendingAt hit time span count n ↔
    j < n ∧ hit j = true ∧ ∀ k < n, j ≤ k → firesAt hit time span count k = false := by
  rw [pendingAt, List.mem_filter, List.mem_range, Bool.and_eq_true, decide_eq_true_eq]

theorem hit_of_mem_tallyAt {j : Nat} (h : j ∈ tallyAt hit time span count n) : hit j = true :=
  (mem_pendingAt.mp ((tallyAt_suffix n).subset h)).2.1

theorem mem_of_mem_kept {hits : List Nat} {j : Nat} (h : j ∈ kept time span hits n) :
    j ∈ hits ∨ j = n := by
  simpa using List.dropWhile_subset _ h

/-- With the hit at `n`, the tally has hits only. -/
theorem hit_of_mem_append (hhit : hit n = true) {j : Nat}
    (h : j ∈ tallyAt hit time span count n ++ [n]) : hit j = true := by
  rcases List.mem_append.mp h with h | h
  · exact hit_of_mem_tallyAt h
  · exact List.mem_singleton.mp h ▸ hhit

theorem tallyAt_append_sublist (n : Nat) :
    (tallyAt hit time span count n ++ [n]).Sublist (List.range (n + 1)) := by
  rw [List.range_succ]
  refine List.Sublist.append ?_ (List.Sublist.refl [n])
  exact (tallyAt_suffix n).sublist.trans List.filter_sublist

theorem kept_sublist (n : Nat) :
    (kept time span (tallyAt hit time span count n) n).Sublist (List.range (n + 1)) :=
  (List.dropWhile_sublist _).trans (tallyAt_append_sublist n)

theorem le_of_mem_kept {j : Nat} (h : j ∈ kept time span (tallyAt hit time span count n) n) :
    j ≤ n :=
  Nat.le_of_lt_succ (List.mem_range.mp ((kept_sublist n).subset h))

theorem hit_of_mem_kept (hhit : hit n = true) {j : Nat}
    (h : j ∈ kept time span (tallyAt hit time span count n) n) : hit j = true :=
  hit_of_mem_append hhit (List.dropWhile_subset _ h)

/-- What is left is told apart. -/
theorem nodup_kept (n : Nat) : (kept time span (tallyAt hit time span count n) n).Nodup :=
  List.nodup_range.sublist (kept_sublist n)

/-- The hits that it fires for come after it fired before. -/
theorem lt_of_mem_kept {j n' : Nat} (hfires : firesAt hit time span count n = true) (hlt : n < n')
    (hj : j ∈ kept time span (tallyAt hit time span count n') n') : n < j := by
  rcases mem_of_mem_kept hj with hj | rfl
  · obtain ⟨-, -, hquiet⟩ := mem_pendingAt.mp ((tallyAt_suffix n').subset hj)
    refine Nat.lt_of_not_le fun hle => ?_
    rw [hquiet n hlt hle] at hfires
    cases hfires
  · exact hlt

/-- Hits that are near each other and near the one at `n` are so together with it. -/
theorem near_of_near {width : Nat} {hits : List Nat}
    (hlast : ∀ j ∈ kept time span hits n, time j ≤ time n + width ∧ time n ≤ time j + width)
    (hbefore : ∀ j ∈ hits, ∀ k ∈ hits, time j ≤ time k + width) {j k : Nat}
    (hj : j ∈ kept time span hits n) (hk : k ∈ kept time span hits n) :
    time j ≤ time k + width := by
  rcases mem_of_mem_kept hj with hj' | rfl
  · rcases mem_of_mem_kept hk with hk' | rfl
    · exact hbefore j hj' k hk'
    · exact (hlast j hj).1
  · exact (hlast k hk).2

/-- Where no hit leaves others that are far from it, those it leaves are not far from each other. -/
theorem near_of_mem_tallyAt {width : Nat}
    (h : ∀ n, hit n = true → ∀ j ∈ kept time span (tallyAt hit time span count n) n,
      time j ≤ time n + width ∧ time n ≤ time j + width) {j k : Nat}
    (hj : j ∈ tallyAt hit time span count n) (hk : k ∈ tallyAt hit time span count n) :
    time j ≤ time k + width := by
  induction n generalizing j k with
  | zero => cases hj
  | succ n ih =>
    cases hfires : firesAt hit time span count n with
    | true =>
      rw [tallyAt_succ_of_fires hfires] at hj
      cases hj
    | false =>
      cases hhit : hit n with
      | false =>
        rw [tallyAt_succ_of_not_hit hhit] at hj hk
        exact ih hj hk
      | true =>
        rw [tallyAt_succ_of_hit hhit hfires] at hj hk
        exact near_of_near (h n hhit) (fun _ hj' _ hk' => ih hj' hk') hj hk

theorem near_of_mem_kept {width : Nat}
    (h : ∀ n, hit n = true → ∀ j ∈ kept time span (tallyAt hit time span count n) n,
      time j ≤ time n + width ∧ time n ≤ time j + width) {j k : Nat} (hhit : hit n = true)
    (hj : j ∈ kept time span (tallyAt hit time span count n) n)
    (hk : k ∈ kept time span (tallyAt hit time span count n) n) : time j ≤ time k + width :=
  near_of_near (h n hhit) (fun _ hj' _ hk' => near_of_mem_tallyAt h hj' hk') hj hk

section
variable (h : ∀ j k, j ≤ k → hit j = true → hit k = true → time j ≤ time k)
include h

/-- Where the hits come in order, those are left that are not over. -/
theorem kept_eq_filter (hhit : hit n = true) :
    kept time span (tallyAt hit time span count n) n =
      (tallyAt hit time span count n ++ [n]).filter fun j => decide (time n ≤ time j + span) := by
  rw [kept, dropWhile_eq_filter]
  · refine List.filter_congr fun j _ => ?_
    rw [← decide_not]
    exact decide_eq_decide.mpr (by omega)
  · have hsub : (tallyAt hit time span count n ++ [n]).Sublist (List.range (n + 1)) :=
      tallyAt_append_sublist n
    have hordered := List.pairwise_le_range.sublist hsub
    refine hordered.imp_of_mem fun hj hk hle hover => ?_
    have hle := h _ _ hle (hit_of_mem_append hhit hj) (hit_of_mem_append hhit hk)
    rw [decide_eq_true_eq] at hover ⊢
    omega

/-- Then the tally has forgotten nothing that still counts. -/
theorem tallyAt_filter {now : Nat} (hnow : ∀ j < n, hit j = true → time j ≤ now) :
    (tallyAt hit time span count n).filter (fun j => decide (now ≤ time j + span)) =
      (pendingAt hit time span count n).filter fun j => decide (now ≤ time j + span) := by
  induction n with
  | zero => rfl
  | succ n ih =>
    have hbefore := ih fun j hj => hnow j (Nat.lt_succ_of_lt hj)
    cases hfires : firesAt hit time span count n with
    | true => rw [tallyAt_succ_of_fires hfires, pendingAt_succ_of_fires hfires]
    | false =>
      rw [pendingAt_succ_of_not_fires hfires, List.filter_append, ← hbefore]
      cases hhit : hit n with
      | false =>
        rw [tallyAt_succ_of_not_hit hhit, if_neg (by simp), List.filter_nil, List.append_nil]
      | true =>
        have hlast := hnow n (Nat.lt_succ_self n) hhit
        rw [tallyAt_succ_of_hit hhit hfires, kept_eq_filter h hhit, if_pos rfl,
          ← List.filter_append, List.filter_filter]
        refine List.filter_congr fun j _ => ?_
        rw [Bool.and_eq_left_iff_imp, decide_eq_true_eq, decide_eq_true_eq]
        omega

/-- The tally fires for a hit exactly if enough hits since it fired still count. -/
theorem firesAt_iff (hhit : hit n = true) : firesAt hit time span count n = true ↔
    count ≤ ((List.range (n + 1)).filter fun j => hit j && decide (time n ≤ time j + span) &&
      decide (∀ k < n, j ≤ k → firesAt hit time span count k = false)).length := by
  have hsame : (List.range (n + 1)).filter (fun j =>
      hit j && decide (time n ≤ time j + span) &&
        decide (∀ k < n, j ≤ k → firesAt hit time span count k = false)) =
      kept time span (tallyAt hit time span count n) n := by
    rw [kept_eq_filter h hhit, List.filter_append, tallyAt_filter h fun j hj hhit' =>
      h j n (Nat.le_of_lt hj) hhit' hhit, pendingAt, List.filter_filter, List.range_succ,
      List.filter_append]
    congr 1
    · refine List.filter_congr fun j _ => ?_
      rw [Bool.and_right_comm, Bool.and_comm]
    · have hquiet : ∀ k < n, n ≤ k → firesAt hit time span count k = false :=
        fun k hk hle => absurd hk (Nat.not_lt_of_le hle)
      simpa [hhit] using hquiet
  rw [hsame, firesAt, hhit, Bool.true_and, decide_eq_true_eq]

end

/-- Only the hits and their times matter. -/
theorem tallyAt_congr {time' : Nat → Nat} (h : ∀ j, hit j = true → time j = time' j) (n : Nat) :
    tallyAt hit time span count n = tallyAt hit time' span count n ∧
      firesAt hit time span count n = firesAt hit time' span count n := by
  have hkept : ∀ n, hit n = true → tallyAt hit time span count n = tallyAt hit time' span count n →
      kept time span (tallyAt hit time span count n) n =
        kept time' span (tallyAt hit time' span count n) n := by
    intro n hhit hsame
    rw [kept, kept, ← hsame, h n hhit]
    refine dropWhile_congr fun j hj => ?_
    have hj' : hit j = true := by
      rcases List.mem_append.mp hj with hj | hj
      · exact hit_of_mem_tallyAt hj
      · exact List.mem_singleton.mp hj ▸ hhit
    rw [h j hj']
  have htally : tallyAt hit time span count n = tallyAt hit time' span count n := by
    induction n with
    | zero => rfl
    | succ n ih =>
      rw [tallyAt, tallyAt]
      cases hhit : hit n with
      | true => rw [if_pos rfl, if_pos rfl, hkept n hhit ih]
      | false => exact ih
  refine ⟨htally, ?_⟩
  unfold firesAt
  cases hhit : hit n with
  | true => rw [hkept n hhit htally]
  | false => rfl

end

end ActiveDefense
