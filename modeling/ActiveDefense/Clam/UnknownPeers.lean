import ActiveDefense.Clam.PeerRate

/-!
# Connections whose peer is not known

Connections without a credential or an address are to be unrelated peers, but they share one entry
of the map, with its bucket and its semaphore. What is decided about one of them is compared with
what is decided about it when no other such connection was there before: the decisions agree as long
as the bucket that the earlier ones left has a token and fewer of them than the limit hold a permit
(`unrelated_iff`). Arithmetic is exact there.
-/

namespace ActiveDefense.Clam

/-- The peer of the connection that an action is about. -/
def AdmissionAction.peer : AdmissionAction → PeerKey
  | .check peer _ => peer
  | .acquire a | .spend a | .release a => a.peer

namespace Admissions

section
variable {φ : Type} [FloatArith φ]

/-- The action is about a connection of a known peer. -/
def Known (_ : Admissions φ) (a : AdmissionAction) : Prop := a.peer ≠ .unknown

/-- A check of the peer does not find it rate limited. -/
def Passes (s : Admissions φ) (peer : PeerKey) (now : Instant) : Prop :=
  (s.limits.check peer now s.nextSemaphore).2.isSome = true

instance decidablePasses {s : Admissions φ} {peer : PeerKey} {now : Instant} :
    Decidable (s.Passes peer now) :=
  inferInstanceAs (Decidable (_ = true))

/-- An attempt of a peer that is not known is about to ask for its permit, and no other such
connection was there before. -/
def Alone (ratePerSec burst : φ) (maxConcurrent : Nat) (a : Attempt) (s : Admissions φ) : Prop :=
  ∃ bs s₁ now s₂ cs, Run Step Known (start ratePerSec burst maxConcurrent) bs s₁ ∧
    Step s₁ (.check .unknown now) s₂ ∧ Run Step Known s₂ cs s ∧
    a ∈ s.acquiring ∧ a.peer = .unknown

/-- What an action decides about a connection whose peer is not known is what is decided about it in
any run without earlier ones: whether it is rate limited, and whether it gets a permit. -/
def Unrelated (ratePerSec burst : φ) (maxConcurrent : Nat) (s : Admissions φ) :
    AdmissionAction → Prop
  | .check peer now => peer = .unknown → ∀ bs s₀,
      Run Step Known (start ratePerSec burst maxConcurrent) bs s₀ → s₀.clock ≤ now →
        (s.Passes peer now ↔ s₀.Passes peer now)
  | .acquire a => a.peer = .unknown → ∀ a₀ s₀, Alone ratePerSec burst maxConcurrent a₀ s₀ →
      (s.HasPermit a.semaphore ↔ s₀.HasPermit a₀.semaphore)
  | .spend _ | .release _ => True

/-- The permits of a semaphore that connections of peers that are not known hold. -/
def heldUnknown (s : Admissions φ) (semaphore : Nat) : Nat :=
  s.holders.countP fun a => decide (a.peer = .unknown ∧ a.semaphore = semaphore)

/-- Earlier connections whose peer is not known left enough: a token in the bucket, unless it is
forgotten or never holds a whole one, and a permit of the semaphore, unless there are none. -/
def Spare (s : Admissions φ) : AdmissionAction → Prop
  | .check peer now => peer = .unknown → s.limits.burst < 1.0 ∨
      ∀ entry ∈ s.limits.state.lookup peer, PeerLimits.fresh now entry = true →
        1.0 ≤ s.limits.refilled entry now
  | .acquire a => a.peer = .unknown →
      s.limits.maxConcurrent = 0 ∨ s.heldUnknown a.semaphore < s.limits.maxConcurrent
  | .spend _ | .release _ => True

end

/-! ## Semaphores -/

section
variable {φ : Type} [FloatArith φ] {s t : Admissions φ} {owner : Nat → Option PeerKey}
  {a : AdmissionAction}

/-- Each semaphore is of one peer: those of the entries, and those that attempts go to. -/
structure Owned (s : Admissions φ) (owner : Nat → Option PeerKey) : Prop where
  entries : ∀ peer entry, s.limits.state.lookup peer = some entry →
    owner entry.concurrency = some peer
  attempts : ∀ a ∈ s.acquiring ++ s.holders, owner a.semaphore = some a.peer
  unused : ∀ n, s.nextSemaphore ≤ n → owner n = none

omit [FloatArith φ] in
/-- The semaphore of a check is its peer's, or the next one. -/
theorem Owned.entryAt (h : s.Owned owner) (peer : PeerKey) (now : Instant) :
    let semaphore := (s.limits.entryAt peer now s.nextSemaphore).concurrency
    owner semaphore = some peer ∨ owner semaphore = none ∧ semaphore = s.nextSemaphore := by
  unfold PeerLimits.entryAt
  cases hentry : (s.limits.kept now).lookup peer with
  | none => exact .inr ⟨h.unused _ le_rfl, rfl⟩
  | some entry => exact .inl (h.entries peer entry (PeerLimits.lookup_kept.mp hentry).1)

/-- A check makes the semaphore its peer's. -/
theorem Owned.check (h : s.Owned owner) {peer : PeerKey} {now : Instant}
    (hst : Step s (.check peer now) t) : ∃ owner, t.Owned owner := by
  let semaphore := (s.limits.entryAt peer now s.nextSemaphore).concurrency
  have howner : owner semaphore = some peer ∨
      owner semaphore = none ∧ semaphore = s.nextSemaphore := h.entryAt peer now
  have hkept : ∀ n q, owner n = some q →
      Function.update owner semaphore (some peer) n = some q := by
    intro n q hn
    rcases eq_or_ne n semaphore with rfl | hne
    · rw [Function.update_self]
      rcases howner with howner | ⟨howner, -⟩
      · exact howner.symm.trans hn
      · rw [howner] at hn
        cases hn
    · rwa [Function.update_of_ne hne]
  refine ⟨Function.update owner semaphore (some peer), ?_, ?_, ?_⟩
  · intro q entry hentry
    cases hst.moved
    rcases eq_or_ne q peer with rfl | hne
    · obtain rfl := Option.some.inj (PeerLimits.lookup_check_self.symm.trans hentry)
      exact Function.update_self ..
    · exact hkept _ _ (h.entries q entry ((PeerLimits.lookup_check_of_ne hne).mp hentry).1)
  · intro b hb
    cases hst.moved
    rw [List.append_assoc] at hb
    rcases List.mem_append.mp hb with hnew | hold
    · obtain ⟨_, hpassed, rfl⟩ := Option.map_eq_some_iff.mp (Option.mem_toList.mp hnew)
      simp only [PeerLimits.check, Option.ite_none_left_eq_some, Option.some.injEq] at hpassed
      rw [← hpassed.2]
      exact Function.update_self ..
    · exact hkept _ _ (h.attempts b hold)
  · intro n hn
    cases hst.moved
    have hne : n ≠ semaphore := by
      rintro rfl
      have hle := Nat.le_of_succ_le hn
      rcases howner with howner | ⟨-, howner⟩
      · rw [h.unused _ hle] at howner
        cases howner
      · rw [howner] at hn
        exact Nat.not_succ_le_self _ hn
    rw [Function.update_of_ne hne]
    exact h.unused n (Nat.le_of_succ_le hn)

/-- No other step gives a peer a semaphore. -/
theorem Owned.step (h : s.Owned owner) (hst : Step s a t) : ∃ owner, t.Owned owner := by
  cases hst.moved with
  | checked => exact h.check hst
  | @permitted b hb =>
    refine ⟨owner, h.entries, fun c hc => ?_, h.unused⟩
    have hperm : (s.acquiring.erase b ++ (b :: s.spending ++ s.connections)).Perm
        (s.acquiring ++ s.holders) :=
      List.perm_middle.trans (List.Perm.append_right _ (List.perm_cons_erase hb).symm)
    exact h.attempts c (hperm.mem_iff.mp hc)
  | refused =>
    refine ⟨owner, h.entries, fun c hc => h.attempts c ?_, h.unused⟩
    exact (List.erase_sublist.append_right _).subset hc
  | @spent b hb =>
    refine ⟨owner, fun q entry hentry => ?_, fun c hc => ?_, h.unused⟩
    · rcases eq_or_ne q b.peer with rfl | hne
      · cases hl : s.limits.state.lookup b.peer with
        | none =>
          rw [PeerLimits.spend, hl] at hentry
          exact h.entries _ entry hentry
        | some old =>
          rw [PeerLimits.lookup_spend_self hl] at hentry
          cases hentry
          exact h.entries _ old hl
      · rw [PeerLimits.lookup_spend_of_ne hne] at hentry
        exact h.entries q entry hentry
    · have hperm : (s.spending.erase b ++ b :: s.connections).Perm s.holders :=
        List.perm_middle.trans (List.Perm.append_right _ (List.perm_cons_erase hb).symm)
      exact h.attempts c ((hperm.append_left _).mem_iff.mp hc)
  | released =>
    refine ⟨owner, h.entries, fun c hc => h.attempts c ?_, h.unused⟩
    exact ((List.erase_sublist.append_left _).append_left _).subset hc

theorem exists_owned {ratePerSec burst : φ} {maxConcurrent : Nat}
    (h : Reachable Step (start ratePerSec burst maxConcurrent) s) : ∃ owner, s.Owned owner :=
  h.invariant (I := fun s => ∃ owner, s.Owned owner)
    ⟨fun _ => none, fun _ _ hentry => (by cases hentry), fun _ ha => (by cases ha), fun _ _ => rfl⟩
    fun _ _ _ ⟨_, howned⟩ hst => howned.step hst

omit [FloatArith φ] in
/-- Who holds a permit of the semaphore that an attempt goes to is of the same peer. -/
theorem Owned.hasPermit_iff (h : s.Owned owner) {a : Attempt} (ha : a ∈ s.acquiring)
    (hunknown : a.peer = .unknown) :
    s.HasPermit a.semaphore ↔ s.heldUnknown a.semaphore < s.limits.maxConcurrent := by
  have hcount : (s.holders.countP fun b => decide (b.semaphore = a.semaphore)) =
      s.heldUnknown a.semaphore := by
    refine List.countP_congr fun b hb => ?_
    have howner := h.attempts a (List.mem_append_left _ ha)
    have howner' := h.attempts b (List.mem_append_right _ hb)
    simp only [decide_eq_true_eq, iff_and_self]
    intro hsemaphore
    rw [hsemaphore, howner, hunknown] at howner'
    exact (Option.some.inj howner').symm
  rw [HasPermit, hcount]

end

/-! ## Runs of known peers -/

section
variable {φ : Type} [FloatArith φ] {s t : Admissions φ} {as : List AdmissionAction}

/-- Connections of known peers leave no entry for the others. -/
theorem lookup_of_known (h : Run Step Known s as t)
    (hs : s.limits.state.lookup .unknown = none) : t.limits.state.lookup .unknown = none := by
  refine h.invariant (I := fun s => s.limits.state.lookup .unknown = none) hs
    fun s a t hs hknown hst => ?_
  cases hst.moved with
  | checked =>
    rw [Option.eq_none_iff_forall_ne_some]
    intro entry hentry
    rw [((PeerLimits.lookup_check_of_ne (Ne.symm hknown)).mp hentry).1] at hs
    cases hs
  | permitted | refused | released => exact hs
  | spent => exact (PeerLimits.lookup_spend_of_ne (Ne.symm hknown)).trans hs

/-- And no permit. -/
theorem holders_of_known (h : Run Step Known s as t)
    (hs : ∀ b ∈ s.holders, b.peer ≠ .unknown) : ∀ b ∈ t.holders, b.peer ≠ .unknown := by
  refine h.invariant (I := fun s => ∀ b ∈ s.holders, b.peer ≠ .unknown) hs
    fun s a t hs hknown hst => ?_
  cases hst.moved with
  | checked | refused => exact hs
  | permitted =>
    intro b hb
    rcases List.mem_cons.mp hb with rfl | hb
    · exact hknown
    · exact hs b hb
  | @spent a ha =>
    have hperm : (s.spending.erase a ++ a :: s.connections).Perm s.holders :=
      List.perm_middle.trans (List.Perm.append_right _ (List.perm_cons_erase ha).symm)
    exact fun b hb => hs b (hperm.mem_iff.mp hb)
  | released => exact fun b hb => hs b ((List.erase_sublist.append_left _).subset hb)

variable {ratePerSec burst : φ} {maxConcurrent : Nat}

/-- An attempt that is alone gets a permit if there are any. -/
theorem hasPermit_of_alone {a : Attempt} (h : Alone ratePerSec burst maxConcurrent a s) :
    s.HasPermit a.semaphore ↔ 0 < maxConcurrent := by
  obtain ⟨bs, s₁, now, s₂, cs, hbs, hcheck, hcs, ha, hunknown⟩ := h
  have hrun := ((hbs.mono fun _ _ _ => trivial).snoc trivial hcheck).append
    (hcs.mono fun _ _ _ => trivial)
  obtain ⟨owner, howned⟩ := exists_owned ⟨_, hrun⟩
  obtain ⟨state, hlimits⟩ := limits_of_run hrun
  have hfirst : ∀ b ∈ s₁.holders, b.peer ≠ .unknown :=
    holders_of_known hbs fun b hb => absurd (a := b ∈ ([] : List Attempt)) hb List.not_mem_nil
  have hholders : ∀ b ∈ s.holders, b.peer ≠ .unknown := by
    refine holders_of_known hcs ?_
    cases hcheck.moved
    exact hfirst
  have hnone : s.heldUnknown a.semaphore = 0 := by
    refine List.countP_eq_zero.mpr fun b hb hheld => ?_
    exact hholders b hb (of_decide_eq_true hheld).1
  rw [howned.hasPermit_iff ha hunknown, hnone, hlimits]

end

/-! ## Decisions -/

section
variable {K : Type} [Field K] [LinearOrder K] [FloorRing K] {s t : Admissions K} {peer : PeerKey}
  {now : Instant}

theorem passes_iff : s.Passes peer now ↔
    1.0 ≤ s.limits.refilled (s.limits.entryAt peer now s.nextSemaphore) now := by
  unfold Passes PeerLimits.check
  dsimp only
  split
  · next hlow => exact iff_of_false (by simp) (not_le.mpr hlow)
  · next hlow => exact iff_of_true rfl (not_lt.mp hlow)

theorem refilled_le (l : PeerLimits K) (entry : PeerState K) (now : Instant) :
    l.refilled entry now ≤ l.burst := by
  unfold PeerLimits.refilled
  rw [minF64_eq]
  exact min_le_right _ _

/-- A peer that is new or forgotten finds its bucket full. -/
theorem passes_of_stale (h : ∀ entry, s.limits.state.lookup peer = some entry →
    PeerLimits.fresh now entry = false) : s.Passes peer now ↔ 1.0 ≤ s.limits.burst := by
  rw [passes_iff, PeerLimits.entryAt_of_stale h, refilled_eq _ _ le_rfl]
  simp

/-- A check decides as for a new peer exactly if the bucket has a token, is forgotten, or never
holds a whole token. -/
theorem passes_iff_spare : (s.Passes peer now ↔ 1.0 ≤ s.limits.burst) ↔
    s.limits.burst < 1.0 ∨ ∀ entry ∈ s.limits.state.lookup peer,
      PeerLimits.fresh now entry = true → 1.0 ≤ s.limits.refilled entry now := by
  by_cases hfresh : ∃ entry, s.limits.state.lookup peer = some entry ∧
      PeerLimits.fresh now entry = true
  · obtain ⟨entry, hentry, hfresh⟩ := hfresh
    have hle := refilled_le s.limits entry now
    have hspare : (∀ entry ∈ s.limits.state.lookup peer, PeerLimits.fresh now entry = true →
        1.0 ≤ s.limits.refilled entry now) ↔ 1.0 ≤ s.limits.refilled entry now := by
      rw [hentry]
      simp [hfresh]
    rw [passes_iff, PeerLimits.entryAt_of_fresh hentry hfresh, hspare]
    constructor
    · intro hagree
      rcases lt_or_ge s.limits.burst 1.0 with hlow | hhigh
      · exact .inl hlow
      · exact .inr (hagree.mpr hhigh)
    · rintro (hlow | htoken)
      · exact iff_of_false (not_le.mpr (hle.trans_lt hlow)) (not_le.mpr hlow)
      · exact iff_of_true htoken (htoken.trans hle)
  · have hstale : ∀ entry, s.limits.state.lookup peer = some entry →
        PeerLimits.fresh now entry = false :=
      fun entry hentry => Bool.eq_false_iff.mpr fun hf => hfresh ⟨entry, hentry, hf⟩
    refine iff_of_true (passes_of_stale hstale) (.inr fun entry hentry hf => ?_)
    rw [hstale entry hentry] at hf
    cases hf

/-- An attempt got past its check only if a full bucket holds a token. -/
theorem burst_of_acquiring {ratePerSec burst : K} {maxConcurrent : Nat}
    (h : Reachable Step (start ratePerSec burst maxConcurrent) s) {a : Attempt}
    (ha : a ∈ s.acquiring) : 1.0 ≤ s.limits.burst := by
  refine h.invariant (I := fun s => ∀ a ∈ s.acquiring, 1.0 ≤ s.limits.burst)
    (fun a ha => by cases ha) (fun s action t hs hst => ?_) a ha
  cases hst.moved with
  | @checked peer now hnow =>
    intro a ha
    rcases List.mem_append.mp ha with hnew | hold
    · obtain ⟨semaphore, hpassed, -⟩ := Option.map_eq_some_iff.mp (Option.mem_toList.mp hnew)
      have hpasses : s.Passes peer now := Option.isSome_iff_exists.mpr ⟨semaphore, hpassed⟩
      exact (passes_iff.mp hpasses).trans (refilled_le _ _ _)
    · exact hs a hold
  | permitted | refused => exact fun a ha => hs a (List.mem_of_mem_erase ha)
  | spent =>
    intro a ha
    obtain ⟨state, hlimits⟩ := PeerLimits.spend_eq s.limits _
    rw [hlimits]
    exact hs a ha
  | released => exact hs

/-- An attempt is alone in some run if a full bucket holds a token. -/
theorem exists_alone (ratePerSec : K) {burst : K} (maxConcurrent : Nat) (hburst : 1.0 ≤ burst) :
    ∃ a s, Alone ratePerSec burst maxConcurrent a s := by
  have hpasses : (start ratePerSec burst maxConcurrent).Passes .unknown 0 :=
    (passes_of_stale fun entry hentry => by cases hentry).mpr hburst
  obtain ⟨semaphore, hpassed⟩ := Option.isSome_iff_exists.mp hpasses
  obtain ⟨s, hst⟩ : ∃ s, Step (start ratePerSec burst maxConcurrent) (.check .unknown 0) s :=
    ⟨_, rfl⟩
  refine ⟨⟨.unknown, semaphore, 0⟩, s, [], _, 0, s, [], .nil, hst, .nil, ?_, rfl⟩
  cases hst.moved
  rw [hpassed]
  exact .head _

/-- What is decided about connections whose peer is not known depends on no earlier one exactly if
those always leave enough. -/
theorem unrelated_iff {ratePerSec burst : K} {maxConcurrent : Nat} {as : List AdmissionAction}
    {s : Admissions K} :
    Run Step (Unrelated ratePerSec burst maxConcurrent) (start ratePerSec burst maxConcurrent)
        as s ↔
      Run Step Spare (start ratePerSec burst maxConcurrent) as s := by
  refine Run.congr fun s action t hreach hst => ?_
  obtain ⟨as, hrun⟩ := hreach
  obtain ⟨state, hlimits⟩ := limits_of_run hrun
  have hburst : s.limits.burst = burst := by rw [hlimits]
  have hmax : s.limits.maxConcurrent = maxConcurrent := by rw [hlimits]
  cases hst.moved with
  | @checked peer now hnow =>
    refine forall_congr' fun hunknown => ?_
    subst hunknown
    have hfirst : ∀ bs s₀, Run Step Known (start ratePerSec burst maxConcurrent) bs s₀ →
        (s₀.Passes .unknown now ↔ 1.0 ≤ burst) := by
      intro bs s₀ hbs
      obtain ⟨state₀, hlimits₀⟩ := limits_of_run hbs
      have hnone := lookup_of_known hbs rfl
      have hstale : ∀ entry, s₀.limits.state.lookup .unknown = some entry →
          PeerLimits.fresh now entry = false := by
        intro entry hentry
        rw [hnone] at hentry
        cases hentry
      rw [passes_of_stale hstale, hlimits₀]
    rw [← passes_iff_spare, hburst]
    constructor
    · intro hunrelated
      rw [hunrelated [] _ .nil (Nat.zero_le now)]
      exact hfirst [] _ .nil
    · intro hagree bs s₀ hbs _
      rw [hagree, hfirst bs s₀ hbs]
  | @permitted a ha | @refused a ha =>
    refine forall_congr' fun hunknown => ?_
    obtain ⟨owner, howned⟩ := exists_owned ⟨as, hrun⟩
    obtain ⟨a₀, s₀, halone⟩ := exists_alone ratePerSec maxConcurrent
      (hburst ▸ burst_of_acquiring ⟨as, hrun⟩ ha)
    rw [howned.hasPermit_iff ha hunknown, hmax]
    constructor
    · intro hunrelated
      have hagree := hunrelated a₀ s₀ halone
      rw [hasPermit_of_alone halone] at hagree
      omega
    · intro hspare a₁ s₁ halone₁
      rw [hasPermit_of_alone halone₁]
      omega
  | spent | released => exact iff_of_true trivial trivial

end

/-- A second connection whose peer is not known is refused, with a burst of one, where the first is
not. -/
theorem not_unrelated : ¬ ∀ (ratePerSec burst : Float) (maxConcurrent : Nat)
    (s t : Admissions Float) (a : AdmissionAction),
    Reachable Step (start ratePerSec burst maxConcurrent) s → Step s a t →
      s.Unrelated ratePerSec burst maxConcurrent a := by
  intro hclaim
  have hend : (([.check .unknown 0, .acquire ⟨.unknown, 0, 0⟩, .spend ⟨.unknown, 0, 0⟩] :
        List AdmissionAction).foldlM next (start (1.0 : Float) 1.0 8)).any
      (fun s => decide (s.clock = 0 ∧ ¬ s.Passes .unknown 0)) = true := by
    decide +kernel
  obtain ⟨s, hrun, hend⟩ := (Option.any_eq_true _ _).mp hend
  obtain ⟨hclock, hlimited⟩ := of_decide_eq_true hend
  have hfirst : (start (1.0 : Float) 1.0 8).Passes .unknown 0 := by
    decide +kernel
  have hnext : Step s (.check .unknown 0) _ := if_neg (by rw [hclock]; exact Nat.lt_irrefl 0)
  have hagree := hclaim 1.0 1.0 8 s _ _ ⟨_, .of_foldlM (fun _ _ _ h => h) hrun⟩ hnext rfl [] _ .nil
    (Nat.le_refl 0)
  exact hlimited (hagree.mpr hfirst)

end Admissions

end ActiveDefense.Clam
