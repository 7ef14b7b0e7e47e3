import ActiveDefense.Clam.PeerLimits

/-!
# The permits of one peer

As long as no entry is forgotten whose peer holds a permit, all permits of a peer are of one
semaphore, and that has as many as the limit. A peer that is forgotten while its connections are
open gets a new semaphore, and with it as many permits again.
-/

namespace ActiveDefense.Clam

namespace Admissions

variable {φ : Type} [FloatArith φ]

/-- A check forgets no peer that holds a permit or is about to ask for one. -/
def KeepsPermits (s : Admissions φ) : AdmissionAction → Prop
  | .check _ now => ∀ e ∈ s.limits.state.entries, PeerLimits.fresh now e.2 = false →
      ∀ a ∈ s.acquiring ++ s.holders, a.peer ≠ e.1
  | _ => True

instance {s : Admissions φ} {a : AdmissionAction} : Decidable (s.KeepsPermits a) := by
  unfold KeepsPermits
  split <;> infer_instance

/-- Who holds a permit or is about to ask for one goes to the semaphore of the peer's entry, and no
peer holds more than the limit. -/
structure OneSemaphore (s : Admissions φ) : Prop where
  current : ∀ a ∈ s.acquiring ++ s.holders, ∃ entry,
    s.limits.state.lookup a.peer = some entry ∧ entry.concurrency = a.semaphore
  bounded : ∀ peer, s.held peer ≤ s.limits.maxConcurrent

omit [FloatArith φ] in
theorem oneSemaphore_start (ratePerSec burst : φ) (maxConcurrent : Nat) :
    (start ratePerSec burst maxConcurrent).OneSemaphore where
  current := nofun
  bounded _ := Nat.zero_le _

theorem OneSemaphore.check {s : Admissions φ} (h : s.OneSemaphore) {peer : PeerKey}
    {now : Instant} (hkeeps : s.KeepsPermits (.check peer now)) {a : Attempt}
    (ha : a ∈ s.acquiring ++ s.holders) : ∃ entry,
      (s.limits.check peer now s.nextSemaphore).1.state.lookup a.peer = some entry ∧
        entry.concurrency = a.semaphore := by
  obtain ⟨entry, hl, hsemaphore⟩ := h.current a ha
  have hfresh : PeerLimits.fresh now entry = true := by
    rw [← Bool.not_eq_false]
    exact fun hstale => hkeeps ⟨a.peer, entry⟩ (AList.mem_lookup_iff.mp hl) hstale a ha rfl
  rcases eq_or_ne a.peer peer with rfl | hne
  · refine ⟨_, PeerLimits.lookup_check_self, ?_⟩
    rw [PeerLimits.entryAt_of_fresh hl hfresh]
    exact hsemaphore
  · exact ⟨entry, (PeerLimits.lookup_check_of_ne hne).mpr ⟨hl, hfresh⟩, hsemaphore⟩

theorem OneSemaphore.spend {s : Admissions φ} (h : s.OneSemaphore) (peer : PeerKey) {a : Attempt}
    (ha : a ∈ s.acquiring ++ s.holders) : ∃ entry,
      (s.limits.spend peer).state.lookup a.peer = some entry ∧
        entry.concurrency = a.semaphore := by
  obtain ⟨entry, hl, hsemaphore⟩ := h.current a ha
  rcases eq_or_ne a.peer peer with rfl | hne
  · exact ⟨_, PeerLimits.lookup_spend_self hl, hsemaphore⟩
  · exact ⟨entry, (PeerLimits.lookup_spend_of_ne hne).trans hl, hsemaphore⟩

omit [FloatArith φ] in
/-- A permit is taken only while the peer holds fewer than the limit. -/
theorem OneSemaphore.held_lt {s : Admissions φ} (h : s.OneSemaphore) {a : Attempt}
    (ha : a ∈ s.acquiring) (hpermit : s.HasPermit a.semaphore) :
    s.held a.peer < s.limits.maxConcurrent := by
  refine Nat.lt_of_le_of_lt (List.countP_mono_left fun b hb hpeer => ?_) hpermit
  obtain ⟨entry, hl, hsemaphore⟩ := h.current a (List.mem_append_left _ ha)
  obtain ⟨entry', hl', hsemaphore'⟩ := h.current b (List.mem_append_right _ hb)
  rw [of_decide_eq_true hpeer, hl] at hl'
  cases hl'
  exact decide_eq_true (hsemaphore'.symm.trans hsemaphore)

theorem OneSemaphore.step {s t : Admissions φ} {action : AdmissionAction} (h : s.OneSemaphore)
    (hkeeps : s.KeepsPermits action) (hst : Step s action t) : t.OneSemaphore := by
  have hrest (a : Attempt) : ∀ b ∈ s.acquiring.erase a ++ s.holders,
      b ∈ s.acquiring ++ s.holders := by
    intro b hb
    rcases List.mem_append.mp hb with hb | hb
    · exact List.mem_append_left _ (List.mem_of_mem_erase hb)
    · exact List.mem_append_right _ hb
  cases hst.moved with
  | @checked peer now _ =>
    refine ⟨fun a ha => ?_, h.bounded⟩
    rw [List.append_assoc] at ha
    rcases List.mem_append.mp ha with hnew | hold
    · obtain ⟨semaphore, hpassed, rfl⟩ := Option.map_eq_some_iff.mp (Option.mem_toList.mp hnew)
      refine ⟨_, PeerLimits.lookup_check_self, ?_⟩
      simp only [PeerLimits.check, Option.ite_none_left_eq_some] at hpassed
      exact Option.some.inj hpassed.2
    · exact h.check hkeeps hold
  | @permitted a ha hpermit =>
    have hholders : ∀ peer, held { s with
        acquiring := s.acquiring.erase a, spending := a :: s.spending } peer =
          s.held peer + if a.peer = peer then 1 else 0 := by
      intro peer
      simp [held, holders, List.countP_cons]
    refine ⟨fun b hb => ?_, fun peer => ?_⟩
    · rcases List.mem_append.mp hb with hb | hb
      · exact h.current b (hrest a b (List.mem_append_left _ hb))
      · rcases List.mem_cons.mp hb with rfl | hb
        · exact h.current b (List.mem_append_left _ ha)
        · exact h.current b (List.mem_append_right _ hb)
    · rw [hholders]
      have hle := h.bounded peer
      have hlt := h.held_lt ha hpermit
      split
      · next heq =>
        rw [heq] at hlt
        exact hlt
      · exact hle
  | @refused a _ _ => exact ⟨fun b hb => h.current b (hrest a b hb), h.bounded⟩
  | @spent a ha =>
    have hperm : (s.spending.erase a ++ a :: s.connections).Perm s.holders :=
      List.perm_middle.trans (List.Perm.append_right _ (List.perm_cons_erase ha).symm)
    obtain ⟨state, hlimits⟩ := PeerLimits.spend_eq s.limits a.peer
    refine ⟨fun b hb => ?_, fun peer => ?_⟩
    · refine h.spend a.peer ?_
      rcases List.mem_append.mp hb with hb | hb
      · exact List.mem_append_left _ hb
      · exact List.mem_append_right _ (hperm.mem_iff.mp hb)
    · have hheld := hperm.countP_eq fun b => decide (b.peer = peer)
      unfold held holders
      rw [hheld, hlimits]
      exact h.bounded peer
  | @released c _ =>
    have hsub : (s.spending ++ s.connections.erase c).Sublist s.holders :=
      List.Sublist.append_left List.erase_sublist _
    refine ⟨fun b hb => h.current b ?_, fun peer => ?_⟩
    · exact (List.Sublist.append_left hsub _).subset hb
    · exact (hsub.countP_le).trans (h.bounded peer)

/-- In every run that forgets no peer with a permit, no peer holds more permits than the limit. -/
theorem held_le_of_run {ratePerSec burst : φ} {maxConcurrent : Nat} {s : Admissions φ}
    {as : List AdmissionAction}
    (h : Run Step KeepsPermits (start ratePerSec burst maxConcurrent) as s) (peer : PeerKey) :
    s.held peer ≤ maxConcurrent := by
  have hs : s.OneSemaphore :=
    h.invariant (oneSemaphore_start ..) fun _ _ _ hs hkeeps hst => hs.step hkeeps hst
  obtain ⟨state, hlimits⟩ := limits_of_run h
  have hle := hs.bounded peer
  rwa [hlimits] at hle

/-- A connection of a peer whose one permit is held is refused, and no peer is forgotten. -/
theorem held_le_of_run_refused : ∃ s : Admissions Float,
    Run Step KeepsPermits (start 5.0 20.0 1)
      [.check (.uid 1000) 0, .acquire ⟨.uid 1000, 0, 0⟩, .spend ⟨.uid 1000, 0, 0⟩,
        .check (.uid 1000) (599 * 10 ^ 9), .acquire ⟨.uid 1000, 0, 599 * 10 ^ 9⟩] s ∧
    s.held (.uid 1000) = 1 ∧ s.held (.uid 1000) ≤ 1 := by
  obtain ⟨s, hrun, hheld⟩ : ∃ s, Run Step KeepsPermits (start (5.0 : Float) 20.0 1)
      [.check (.uid 1000) 0, .acquire ⟨.uid 1000, 0, 0⟩, .spend ⟨.uid 1000, 0, 0⟩,
        .check (.uid 1000) (599 * 10 ^ 9), .acquire ⟨.uid 1000, 0, 599 * 10 ^ 9⟩] s ∧
      s.held (.uid 1000) = 1 :=
    Run.exists_of_guarded (fun _ _ _ hnext => hnext) (by decide +kernel)
  exact ⟨s, hrun, hheld, held_le_of_run hrun _⟩

/-- A peer whose connection stays open for ten minutes is forgotten, and gets a second permit where
the limit is one. -/
theorem not_held_le : ¬ ∀ (s : Admissions Float) (peer : PeerKey),
    Reachable Step (start 5.0 20.0 1) s → s.held peer ≤ 1 := by
  intro hclaim
  have hend : (([.check (.uid 1000) 0, .acquire ⟨.uid 1000, 0, 0⟩, .spend ⟨.uid 1000, 0, 0⟩,
      .check (.uid 1000) (600 * 10 ^ 9), .acquire ⟨.uid 1000, 1, 600 * 10 ^ 9⟩] :
        List AdmissionAction).foldlM next (start (5.0 : Float) 20.0 1)).any
      (fun s => decide (s.held (.uid 1000) = 2)) = true := by
    decide +kernel
  obtain ⟨s, hrun, hheld⟩ := (Option.any_eq_true _ _).mp hend
  have hle := hclaim s (.uid 1000) ⟨_, .of_foldlM (fun _ _ _ h => h) hrun⟩
  rw [of_decide_eq_true hheld] at hle
  omega

end Admissions

end ActiveDefense.Clam
