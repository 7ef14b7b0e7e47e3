import ActiveDefense.Clam.PeerLimits

/-!
# The connections of the daemon

Every connection gets a task of its own. It asks its peer's limits first and the daemon's semaphore
then, and handles its command with both permits. The tasks run side by side: a step is one of any
task, between two points where it may be suspended. Whatever their order, a connection is at one
place at a time or has been counted, once (`connections_accounted`), and once no connection is left
all permits are free again (`daemon_drains`).
-/

namespace ActiveDefense.Clam

/-- What `Metrics` counts of connections. -/
structure ConnMetrics where
  connectionsTotal : UInt64 := 0
  connectionsRejectedBusy : UInt64 := 0
  connectionsRejectedRateLimited : UInt64 := 0
  connectionsRejectedConcurrency : UInt64 := 0

/-- The daemon, as far as `spawn_conn` is concerned. -/
structure Daemon (φ : Type) where
  admissions : Admissions φ
  metrics : ConnMetrics
  /-- `--max-connections` -/
  maxConnections : Nat
  /-- the permits of `concurrency` -/
  available : Nat
  /-- tasks before `admit` -/
  arrived : List PeerKey
  /-- tasks with a permit of their peer, before `try_acquire_owned` on `concurrency` -/
  entering : List Attempt
  /-- tasks in `handle_conn` -/
  running : List Attempt
  /-- tasks that only have the permit of their peer to drop -/
  leaving : List Attempt
  /-- the tasks that are through with `handle_conn` -/
  served : Nat

inductive DaemonAction where
  | connect (peer : PeerKey)
  | check (peer : PeerKey) (now : Instant)
  | acquire (attempt : Attempt)
  | spend (attempt : Attempt)
  | enter (attempt : Attempt)
  /-- `handle_conn` has returned, and `global_permit` is dropped -/
  | finish (attempt : Attempt)
  /-- `peer_permit` is dropped -/
  | leave (attempt : Attempt)

/-! ## Steps of the limits -/

namespace Admissions

variable {φ : Type} [FloatArith φ] {s t : Admissions φ} {peer : PeerKey} {now : Instant}
  {a : Attempt}

theorem Step.of_check (h : s.Step (.check peer now) t) : t.spending = s.spending ∧
    t.connections = s.connections ∧ t.acquiring.length = s.acquiring.length +
      if (s.limits.check peer now s.nextSemaphore).2.isNone then 0 else 1 := by
  cases h.moved with
  | checked =>
    refine ⟨rfl, rfl, ?_⟩
    rw [List.length_append]
    cases (s.limits.check peer now s.nextSemaphore).2 with
    | none => exact Nat.zero_add _
    | some semaphore => exact Nat.add_comm _ _

theorem Step.of_acquire (h : s.Step (.acquire a) t) : t.connections = s.connections ∧
    t.acquiring.length + 1 = s.acquiring.length ∧
    t.spending.length = s.spending.length + if s.HasPermit a.semaphore then 1 else 0 := by
  cases h.moved with
  | permitted ha hpermit =>
    rw [if_pos hpermit]
    exact ⟨rfl, List.length_erase_add_one ha, rfl⟩
  | refused ha hpermit =>
    rw [if_neg hpermit]
    exact ⟨rfl, List.length_erase_add_one ha, rfl⟩

theorem Step.of_spend (h : s.Step (.spend a) t) : t.connections = a :: s.connections ∧
    t.acquiring = s.acquiring ∧ t.spending.length + 1 = s.spending.length := by
  cases h.moved with
  | spent ha => exact ⟨rfl, rfl, List.length_erase_add_one ha⟩

theorem Step.of_release (h : s.Step (.release a) t) : t.connections = s.connections.erase a ∧
    t.acquiring = s.acquiring ∧ t.spending = s.spending := by
  cases h.moved with
  | released => exact ⟨rfl, rfl, rfl⟩

end Admissions

namespace Daemon

variable {φ : Type}

/-- The daemon before any connection. -/
def start (ratePerSec burst : φ) (maxConcurrent maxConnections : Nat) : Daemon φ where
  admissions := .start ratePerSec burst maxConcurrent
  metrics := {}
  maxConnections := maxConnections
  available := maxConnections
  arrived := []
  entering := []
  running := []
  leaving := []
  served := 0

section
variable [FloatArith φ]

/-- `Admission::RateLimited` is what a check ends in. -/
def rateLimits (s : Daemon φ) (peer : PeerKey) (now : Instant) : Bool :=
  (s.admissions.limits.check peer now s.admissions.nextSemaphore).2.isNone

/-- The state after a step of a task of `spawn_conn`. -/
def next (s : Daemon φ) : DaemonAction → Option (Daemon φ)
  | .connect peer =>
    let metrics := { s.metrics with connectionsTotal := s.metrics.connectionsTotal + 1 }
    some { s with metrics := metrics, arrived := peer :: s.arrived }
  | .check peer now =>
    if peer ∈ s.arrived then do
      let admissions ← s.admissions.next (.check peer now)
      let metrics :=
        if s.rateLimits peer now then
          { s.metrics with
            connectionsRejectedRateLimited := s.metrics.connectionsRejectedRateLimited + 1 }
        else s.metrics
      some { s with admissions := admissions, metrics := metrics, arrived := s.arrived.erase peer }
    else none
  | .acquire a => do
    let admissions ← s.admissions.next (.acquire a)
    let metrics :=
      if s.admissions.HasPermit a.semaphore then s.metrics
      else
        { s.metrics with
          connectionsRejectedConcurrency := s.metrics.connectionsRejectedConcurrency + 1 }
    some { s with admissions := admissions, metrics := metrics }
  | .spend a => do
    let admissions ← s.admissions.next (.spend a)
    some { s with admissions := admissions, entering := a :: s.entering }
  | .enter a =>
    if a ∈ s.entering then
      let s := { s with entering := s.entering.erase a }
      if 0 < s.available then
        some { s with available := s.available - 1, running := a :: s.running }
      else
        let metrics :=
          { s.metrics with connectionsRejectedBusy := s.metrics.connectionsRejectedBusy + 1 }
        some { s with metrics := metrics, leaving := a :: s.leaving }
    else none
  | .finish a =>
    if a ∈ s.running then
      some { s with
        available := s.available + 1
        running := s.running.erase a
        leaving := a :: s.leaving
        served := s.served + 1 }
    else none
  | .leave a =>
    if a ∈ s.leaving then do
      let admissions ← s.admissions.next (.release a)
      some { s with admissions := admissions, leaving := s.leaving.erase a }
    else none

/-- The steps. -/
def Step (s : Daemon φ) (a : DaemonAction) (t : Daemon φ) : Prop := s.next a = some t

/-! ## What a step can do -/

inductive Moved (s : Daemon φ) : DaemonAction → Daemon φ → Prop
  | connected {peer : PeerKey} : Moved s (.connect peer) { s with
      metrics := { s.metrics with connectionsTotal := s.metrics.connectionsTotal + 1 }
      arrived := peer :: s.arrived }
  | checked {peer : PeerKey} {now : Instant} {admissions : Admissions φ} : peer ∈ s.arrived →
      s.admissions.Step (.check peer now) admissions → s.rateLimits peer now = false →
      Moved s (.check peer now)
        { s with admissions := admissions, arrived := s.arrived.erase peer }
  | rateLimited {peer : PeerKey} {now : Instant} {admissions : Admissions φ} : peer ∈ s.arrived →
      s.admissions.Step (.check peer now) admissions → s.rateLimits peer now = true →
      Moved s (.check peer now) { s with
        admissions := admissions
        metrics := { s.metrics with
          connectionsRejectedRateLimited := s.metrics.connectionsRejectedRateLimited + 1 }
        arrived := s.arrived.erase peer }
  | acquired {a : Attempt} {admissions : Admissions φ} :
      s.admissions.Step (.acquire a) admissions → s.admissions.HasPermit a.semaphore →
      Moved s (.acquire a) { s with admissions := admissions }
  | tooManyConcurrent {a : Attempt} {admissions : Admissions φ} :
      s.admissions.Step (.acquire a) admissions → ¬ s.admissions.HasPermit a.semaphore →
      Moved s (.acquire a) { s with
        admissions := admissions
        metrics := { s.metrics with
          connectionsRejectedConcurrency := s.metrics.connectionsRejectedConcurrency + 1 } }
  | spent {a : Attempt} {admissions : Admissions φ} : s.admissions.Step (.spend a) admissions →
      Moved s (.spend a) { s with admissions := admissions, entering := a :: s.entering }
  | entered {a : Attempt} : a ∈ s.entering → 0 < s.available →
      Moved s (.enter a) { s with
        available := s.available - 1
        entering := s.entering.erase a
        running := a :: s.running }
  | busy {a : Attempt} : a ∈ s.entering → s.available = 0 →
      Moved s (.enter a) { s with
        metrics := { s.metrics with
          connectionsRejectedBusy := s.metrics.connectionsRejectedBusy + 1 }
        entering := s.entering.erase a
        leaving := a :: s.leaving }
  | finished {a : Attempt} : a ∈ s.running → Moved s (.finish a) { s with
      available := s.available + 1
      running := s.running.erase a
      leaving := a :: s.leaving
      served := s.served + 1 }
  | left {a : Attempt} {admissions : Admissions φ} : a ∈ s.leaving →
      s.admissions.Step (.release a) admissions →
      Moved s (.leave a) { s with admissions := admissions, leaving := s.leaving.erase a }

theorem Step.moved {s t : Daemon φ} {action : DaemonAction} (h : Step s action t) :
    Moved s action t := by
  unfold Step at h
  cases action with
  | connect peer =>
    cases h
    exact .connected
  | check peer now =>
    simp only [next, Option.ite_none_right_eq_some, Option.bind_eq_bind,
      Option.bind_eq_some_iff] at h
    obtain ⟨hpeer, admissions, hnext, h⟩ := h
    cases h
    split
    · next hlimits => exact .rateLimited hpeer hnext hlimits
    · next hlimits => exact .checked hpeer hnext (Bool.eq_false_of_not_eq_true hlimits)
  | acquire a =>
    simp only [next, Option.bind_eq_bind, Option.bind_eq_some_iff] at h
    obtain ⟨admissions, hnext, h⟩ := h
    cases h
    split
    · next hpermit => exact .acquired hnext hpermit
    · next hpermit => exact .tooManyConcurrent hnext hpermit
  | spend a =>
    simp only [next, Option.bind_eq_bind, Option.bind_eq_some_iff] at h
    obtain ⟨admissions, hnext, h⟩ := h
    cases h
    exact .spent hnext
  | enter a =>
    simp only [next, Option.ite_none_right_eq_some] at h
    obtain ⟨ha, h⟩ := h
    split at h
    · next hpos =>
      cases h
      exact .entered ha hpos
    · next hnone =>
      cases h
      exact .busy ha (Nat.eq_zero_of_not_pos hnone)
  | finish a =>
    simp only [next, Option.ite_none_right_eq_some] at h
    obtain ⟨ha, h⟩ := h
    cases h
    exact .finished ha
  | leave a =>
    simp only [next, Option.ite_none_right_eq_some, Option.bind_eq_bind,
      Option.bind_eq_some_iff] at h
    obtain ⟨ha, admissions, hnext, h⟩ := h
    cases h
    exact .left ha hnext

/-! ## What the steps keep -/

/-- The connections that are counted as rejected. -/
def rejected (s : Daemon φ) : UInt64 :=
  s.metrics.connectionsRejectedRateLimited + s.metrics.connectionsRejectedConcurrency +
    s.metrics.connectionsRejectedBusy

/-- The tasks that are neither rejected nor through. -/
def underway (s : Daemon φ) : Nat :=
  s.arrived.length + s.admissions.acquiring.length + s.admissions.spending.length +
    s.entering.length + s.running.length

/-- Every permit is where it should be, and every connection is accounted for. -/
structure Sound (s : Daemon φ) : Prop where
  permits : s.available + s.running.length = s.maxConnections
  holders : (s.entering ++ s.running ++ s.leaving).Perm s.admissions.connections
  account : s.metrics.connectionsTotal = s.rejected + .ofNat (s.served + s.underway)

omit [FloatArith φ] in
theorem sound_start (ratePerSec burst : φ) (maxConcurrent maxConnections : Nat) :
    (start ratePerSec burst maxConcurrent maxConnections).Sound where
  permits := rfl
  holders := .refl _
  account := rfl

theorem Sound.permits_of_moved {s t : Daemon φ} {action : DaemonAction} (h : s.Sound)
    (hst : Moved s action t) : t.available + t.running.length = t.maxConnections := by
  have hpermits := h.permits
  cases hst with
  | @entered a ha hpos =>
    change s.available - 1 + (s.running.length + 1) = s.maxConnections
    omega
  | @finished a ha =>
    have hlen := List.length_erase_add_one ha
    change s.available + 1 + (s.running.erase a).length = s.maxConnections
    omega
  | _ => exact hpermits

/-- A connection that has a permit of its peer is before, in or after its command. -/
theorem Sound.holders_of_moved {s t : Daemon φ} {action : DaemonAction} (h : s.Sound)
    (hst : Moved s action t) :
    (t.entering ++ t.running ++ t.leaving).Perm t.admissions.connections := by
  have hholders := h.holders
  cases hst with
  | connected => exact hholders
  | checked _ hadm | rateLimited _ hadm => rwa [hadm.of_check.2.1]
  | acquired hadm | tooManyConcurrent hadm => rwa [hadm.of_acquire.1]
  | spent hadm =>
    rw [hadm.of_spend.1]
    exact hholders.cons _
  | @entered a ha =>
    refine List.Perm.trans ?_ hholders
    refine List.Perm.append_right _ (List.perm_middle.trans ?_)
    exact List.Perm.append_right _ (List.perm_cons_erase ha).symm
  | @busy a ha =>
    refine List.Perm.trans (List.perm_middle.trans ?_) hholders
    exact List.Perm.append_right _ (List.Perm.append_right _ (List.perm_cons_erase ha).symm)
  | @finished a ha =>
    refine List.Perm.trans (List.perm_middle.trans ?_) hholders
    refine List.Perm.append_right _ (List.perm_middle.symm.trans ?_)
    exact List.Perm.append_left _ (List.perm_cons_erase ha).symm
  | @left a _ ha hadm =>
    have hsplit : (s.entering ++ s.running ++ s.leaving).Perm
        (a :: (s.entering ++ s.running ++ s.leaving.erase a)) :=
      (List.Perm.append_left _ (List.perm_cons_erase ha)).trans List.perm_middle
    have herase := (hsplit.symm.trans hholders).erase a
    rw [List.erase_cons_head] at herase
    rwa [hadm.of_release.1]

/-- A step brings a connection, or rejects one and counts it, or neither. -/
theorem Moved.ledger {s t : Daemon φ} {action : DaemonAction} (h : Moved s action t) :
    (t.metrics.connectionsTotal = s.metrics.connectionsTotal + 1 ∧ t.rejected = s.rejected ∧
      t.served + t.underway = s.served + s.underway + 1) ∨
    (t.metrics.connectionsTotal = s.metrics.connectionsTotal ∧ t.rejected = s.rejected + 1 ∧
      t.served + t.underway + 1 = s.served + s.underway) ∨
    (t.metrics.connectionsTotal = s.metrics.connectionsTotal ∧ t.rejected = s.rejected ∧
      t.served + t.underway = s.served + s.underway) := by
  cases h with
  | connected =>
    refine .inl ⟨rfl, rfl, ?_⟩
    simp only [underway, List.length_cons]
    omega
  | @checked peer _ _ hpeer hadm hpassed =>
    obtain ⟨hspending, -, hacquiring⟩ := hadm.of_check
    have hlen := List.length_erase_add_one hpeer
    rw [show Option.isNone _ = false from hpassed] at hacquiring
    refine .inr (.inr ⟨rfl, rfl, ?_⟩)
    simp only [underway, hspending, hacquiring]
    simp
    omega
  | @rateLimited peer _ _ hpeer hadm hlimited =>
    obtain ⟨hspending, -, hacquiring⟩ := hadm.of_check
    have hlen := List.length_erase_add_one hpeer
    rw [show Option.isNone _ = true from hlimited] at hacquiring
    refine .inr (.inl ⟨rfl, ?_, ?_⟩)
    · simp only [rejected]
      ac_rfl
    · simp only [underway, hspending, hacquiring]
      simp
      omega
  | acquired hadm hpermit =>
    obtain ⟨-, hacquiring, hspending⟩ := hadm.of_acquire
    rw [if_pos hpermit] at hspending
    refine .inr (.inr ⟨rfl, rfl, ?_⟩)
    simp only [underway, hspending]
    omega
  | tooManyConcurrent hadm hpermit =>
    obtain ⟨-, hacquiring, hspending⟩ := hadm.of_acquire
    rw [if_neg hpermit] at hspending
    refine .inr (.inl ⟨rfl, ?_, ?_⟩)
    · simp only [rejected]
      ac_rfl
    · simp only [underway, hspending]
      omega
  | spent hadm =>
    obtain ⟨-, hacquiring, hspending⟩ := hadm.of_spend
    refine .inr (.inr ⟨rfl, rfl, ?_⟩)
    simp only [underway, hacquiring, List.length_cons]
    omega
  | @entered a ha =>
    have hlen := List.length_erase_add_one ha
    refine .inr (.inr ⟨rfl, rfl, ?_⟩)
    simp only [underway, List.length_cons]
    omega
  | @busy a ha =>
    have hlen := List.length_erase_add_one ha
    refine .inr (.inl ⟨rfl, (UInt64.add_assoc _ _ _).symm, ?_⟩)
    simp only [underway]
    omega
  | @finished a ha =>
    have hlen := List.length_erase_add_one ha
    refine .inr (.inr ⟨rfl, rfl, ?_⟩)
    simp only [underway]
    omega
  | left _ hadm =>
    obtain ⟨-, hacquiring, hspending⟩ := hadm.of_release
    refine .inr (.inr ⟨rfl, rfl, ?_⟩)
    simp only [underway, hacquiring, hspending]

theorem Sound.step {s t : Daemon φ} {action : DaemonAction} (h : s.Sound)
    (hst : Step s action t) : t.Sound where
  permits := h.permits_of_moved hst.moved
  holders := h.holders_of_moved hst.moved
  account := by
    have haccount := h.account
    have hsucc : ∀ n, UInt64.ofNat (n + 1) = .ofNat n + 1 := fun n => UInt64.ofNat_add n 1
    rcases hst.moved.ledger with ⟨htotal, hrejected, hcount⟩ | ⟨htotal, hrejected, hcount⟩ |
      ⟨htotal, hrejected, hcount⟩
    · rw [htotal, hrejected, hcount, hsucc, haccount, UInt64.add_assoc]
    · rw [htotal, hrejected, haccount, ← hcount, hsucc, UInt64.add_assoc, UInt64.add_comm 1]
    · rw [htotal, hrejected, hcount, haccount]

theorem Step.maxConnections {s t : Daemon φ} {action : DaemonAction} (h : Step s action t) :
    t.maxConnections = s.maxConnections := by
  cases h.moved <;> rfl

section
variable {ratePerSec burst : φ} {maxConcurrent maxConnections : Nat} {s t : Daemon φ}

theorem sound_of_reachable
    (h : Reachable Step (start ratePerSec burst maxConcurrent maxConnections) s) :
    s.Sound ∧ s.maxConnections = maxConnections :=
  h.invariant (I := fun s => s.Sound ∧ s.maxConnections = maxConnections)
    ⟨sound_start .., rfl⟩ fun _ _ _ ⟨hsound, hmax⟩ hst =>
      ⟨hsound.step hst, hst.maxConnections.trans hmax⟩

/-- In every reachable state no more connections are in their command than may be, and the semaphore
has the other permits; who has a permit of a peer is before, in or after its command; and every
connection so far is counted as rejected, once, or is through, or underway. A connection that gets
as far as the semaphore is turned away if and only if all permits are taken. -/
theorem connections_accounted
    (h : Reachable Step (start ratePerSec burst maxConcurrent maxConnections) s) :
    s.available + s.running.length = maxConnections ∧
    (s.entering ++ s.running ++ s.leaving).Perm s.admissions.connections ∧
    s.metrics.connectionsTotal = s.metrics.connectionsRejectedRateLimited +
      s.metrics.connectionsRejectedConcurrency + s.metrics.connectionsRejectedBusy +
      .ofNat (s.served + s.underway) ∧
    ∀ a t, Step s (.enter a) t →
      (t.metrics.connectionsRejectedBusy = s.metrics.connectionsRejectedBusy + 1 ↔
        s.running.length = maxConnections) := by
  obtain ⟨hsound, hmax⟩ := sound_of_reachable h
  have hpermits := hmax ▸ hsound.permits
  refine ⟨hpermits, hsound.holders, hsound.account, fun a t hst => ?_⟩
  cases hst.moved with
  | entered _ hpos =>
    refine iff_of_false (fun heq => ?_) (by omega)
    simp at heq
  | busy _ hnone => exact iff_of_true rfl (by omega)

end

/-- One connection takes the only permit, and the next one is turned away. -/
theorem connections_accounted_busy : ∃ s : Daemon Float,
    Reachable Step (start 5.0 20.0 8 1) s ∧ s.served + s.underway = 1 ∧
    s.metrics.connectionsTotal = 2 ∧ s.metrics.connectionsRejectedBusy = 1 ∧
    s.available + s.running.length = 1 := by
  obtain ⟨s, hrun, hcounts⟩ : ∃ s : Daemon Float,
      Run Step (fun _ _ => True) (start 5.0 20.0 8 1)
        [.connect (.uid 0), .check (.uid 0) 0, .acquire ⟨.uid 0, 0, 0⟩, .spend ⟨.uid 0, 0, 0⟩,
          .enter ⟨.uid 0, 0, 0⟩, .connect (.uid 1), .check (.uid 1) 1, .acquire ⟨.uid 1, 1, 1⟩,
          .spend ⟨.uid 1, 1, 1⟩, .enter ⟨.uid 1, 1, 1⟩] s ∧
      s.served + s.underway = 1 ∧ s.metrics.connectionsTotal = 2 ∧
        s.metrics.connectionsRejectedBusy = 1 :=
    Run.exists_of_guarded (fun _ _ _ hnext => hnext) (by decide +kernel)
  obtain ⟨hcount, htotal, hbusy⟩ := hcounts
  have h : Reachable Step (start (5.0 : Float) 20.0 8 1) s := ⟨_, hrun⟩
  exact ⟨s, h, hcount, htotal, hbusy, (connections_accounted h).1⟩

/-! ## The end of all connections -/

section
variable {ratePerSec burst : φ} {maxConcurrent maxConnections : Nat} {s t : Daemon φ}

/-- How many steps the tasks may take, at most. -/
def work (s : Daemon φ) : Nat :=
  6 * s.arrived.length + 5 * s.admissions.acquiring.length + 4 * s.admissions.spending.length +
    3 * s.entering.length + 2 * s.running.length + s.leaving.length

/-- No new connection. -/
def Inward (_ : Daemon φ) : DaemonAction → Prop
  | .connect _ => False
  | _ => True

/-- Without new connections every step leaves less to do. -/
theorem Moved.work_lt {action : DaemonAction} (h : Moved s action t) (hin : s.Inward action) :
    t.work < s.work := by
  cases h with
  | connected => exact hin.elim
  | @checked peer _ _ hpeer hadm | @rateLimited peer _ _ hpeer hadm =>
    obtain ⟨hspending, -, hacquiring⟩ := hadm.of_check
    have hlen := List.length_erase_add_one hpeer
    simp only [work, hspending, hacquiring]
    split <;> omega
  | acquired hadm | tooManyConcurrent hadm =>
    obtain ⟨-, hacquiring, hspending⟩ := hadm.of_acquire
    simp only [work, hspending]
    split <;> omega
  | spent hadm =>
    obtain ⟨-, hacquiring, hspending⟩ := hadm.of_spend
    simp only [work, hacquiring, List.length_cons]
    omega
  | @entered a ha | @busy a ha | @finished a ha =>
    have hlen := List.length_erase_add_one ha
    simp only [work, List.length_cons]
    omega
  | @left a _ ha hadm =>
    obtain ⟨-, hacquiring, hspending⟩ := hadm.of_release
    have hlen := List.length_erase_add_one ha
    simp only [work, hacquiring, hspending]
    omega

/-- Where no task can go on there is none. -/
theorem Sound.work_eq_zero (h : s.Sound)
    (hstuck : ∀ action t, s.Inward action → ¬ Step s action t) : s.work = 0 := by
  have hnone : ∀ action, s.Inward action → s.next action = none := fun action hin =>
    Option.eq_none_iff_forall_ne_some.mpr fun t ht => hstuck action t hin ht
  have hleaving : s.leaving = [] := by
    refine List.eq_nil_iff_forall_not_mem.mpr fun a ha => ?_
    have hconnection : a ∈ s.admissions.connections :=
      h.holders.subset (List.mem_append_right _ ha)
    simpa [next, Admissions.next, ha, hconnection] using hnone (.leave a) trivial
  have hrunning : s.running = [] := by
    refine List.eq_nil_iff_forall_not_mem.mpr fun a ha => ?_
    simpa [next, ha] using hnone (.finish a) trivial
  have hentering : s.entering = [] := by
    refine List.eq_nil_iff_forall_not_mem.mpr fun a ha => ?_
    have henter := hnone (.enter a) trivial
    simp only [next, if_pos ha] at henter
    split at henter <;> cases henter
  have hspending : s.admissions.spending = [] := by
    refine List.eq_nil_iff_forall_not_mem.mpr fun a ha => ?_
    simpa [next, Admissions.next, ha] using hnone (.spend a) trivial
  have hacquiring : s.admissions.acquiring = [] := by
    refine List.eq_nil_iff_forall_not_mem.mpr fun a ha => ?_
    simpa [next, Admissions.next, ha] using hnone (.acquire a) trivial
  have harrived : s.arrived = [] := by
    refine List.eq_nil_iff_forall_not_mem.mpr fun peer hpeer => ?_
    simpa [next, Admissions.next, hpeer] using hnone (.check peer s.admissions.clock) trivial
  simp [work, harrived, hacquiring, hspending, hentering, hrunning, hleaving]

/-- From every reachable state, without new connections the tasks come to an end, whatever their
order: they take so many steps at most, and where none of them can go on all permits are free, those
of the peers and those of the daemon, and every connection was rejected, once, or is through. -/
theorem daemon_drains
    (h : Reachable Step (start ratePerSec burst maxConcurrent maxConnections) s)
    {actions : List DaemonAction} (hrun : Run Step Inward s actions t) :
    actions.length + t.work ≤ s.work ∧
    ((∀ action u, t.Inward action → ¬ Step t action u) →
      t.available = maxConnections ∧ t.admissions.holders = [] ∧
      t.metrics.connectionsTotal = t.metrics.connectionsRejectedRateLimited +
        t.metrics.connectionsRejectedConcurrency + t.metrics.connectionsRejectedBusy +
        .ofNat t.served) := by
  constructor
  · induction hrun with
    | nil => exact (Nat.zero_add _).le
    | snoc _ hin hst ih =>
      have hlt := hst.moved.work_lt hin
      rw [List.length_append, List.length_singleton]
      omega
  · intro hstuck
    have hreach : Reachable Step (start ratePerSec burst maxConcurrent maxConnections) t :=
      h.trans ⟨actions, hrun.mono fun _ _ _ => trivial⟩
    obtain ⟨hsound, hmax⟩ := sound_of_reachable hreach
    have hwork := hsound.work_eq_zero hstuck
    simp only [work, Nat.add_eq_zero_iff, Nat.mul_eq_zero, List.length_eq_zero_iff] at hwork
    obtain ⟨⟨⟨⟨⟨harrived, hacquiring⟩, hspending⟩, hentering⟩, hrunning⟩, hleaving⟩ := hwork
    simp at harrived hacquiring hspending hentering hrunning
    have hpermits := hsound.permits
    have hholders := hsound.holders
    have haccount := hsound.account
    rw [hentering, hrunning, hleaving] at hholders
    have hconnections := hholders.nil_eq
    rw [hrunning] at hpermits
    simp only [underway, harrived, hacquiring, hspending, hentering, hrunning] at haccount
    refine ⟨?_, ?_, haccount⟩
    · rw [← hmax, ← hpermits]
      rfl
    · rw [Admissions.holders, hspending, ← hconnections]
      rfl

end

/-- One connection that comes, is served and goes. -/
theorem daemon_drains_one : ∃ s t : Daemon Float,
    Reachable Step (start 5.0 20.0 8 1) s ∧ s.available = 0 ∧
    Run Step Inward s [.finish ⟨.uid 0, 0, 0⟩, .leave ⟨.uid 0, 0, 0⟩] t ∧ t.available = 1 ∧
    t.admissions.holders = [] := by
  obtain ⟨s, hrun, hnone, hlater⟩ : ∃ s : Daemon Float,
      Run Step (fun _ _ => True) (start 5.0 20.0 8 1)
        [.connect (.uid 0), .check (.uid 0) 0, .acquire ⟨.uid 0, 0, 0⟩, .spend ⟨.uid 0, 0, 0⟩,
          .enter ⟨.uid 0, 0, 0⟩] s ∧
      s.available = 0 ∧ ([.finish ⟨.uid 0, 0, 0⟩, .leave ⟨.uid 0, 0, 0⟩].foldlM next s).any
        (fun t => decide (t.work = 0)) = true :=
    Run.exists_of_guarded (fun _ _ _ hnext => hnext) (by decide +kernel)
  obtain ⟨t, hfold, hwork⟩ := (Option.any_eq_true _ _).mp hlater
  have hwork := of_decide_eq_true hwork
  have hlast : Run Step Inward s [.finish ⟨.uid 0, 0, 0⟩, .leave ⟨.uid 0, 0, 0⟩] t :=
    (Run.of_foldlM (fun _ _ _ hnext => hnext) hfold).of_forall (by simp [Inward])
  have hstuck : ∀ action u, t.Inward action → ¬ Step t action u := by
    intro action u hin hst
    have hlt := hst.moved.work_lt hin
    omega
  obtain ⟨havailable, hholders, -⟩ := (daemon_drains ⟨_, hrun⟩ hlast).2 hstuck
  exact ⟨s, t, ⟨_, hrun⟩, hnone, hlast, havailable, hholders⟩

end

end Daemon

end ActiveDefense.Clam
