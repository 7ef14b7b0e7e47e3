import ActiveDefense.Lib.Machine
import ActiveDefense.Nsm.Ebpf
import Mathlib.Algebra.BigOperators.Fin

/-!
# The counters of the XDP program

A verdict, the event that tells of it, and the counter that counts it are three effects of one run.
`submit_event` says whether the ring buffer had room for the event, and without room `truncated` is
counted in the place of `passed` and also of `dropped`. So `dropped` accounts for the dropped frames
if and only if none of them met a full ring buffer (`frames_accounted_iff`).
-/

namespace ActiveDefense.Nsm

variable {M : Type} [PrefixMap M 32 UInt64] {cpus : Nat}

/-- A frame, the processor it arrives at, and the blocklist at that time. -/
structure Arrival (M : Type) (cpus : Nat) where
  cpu : Fin cpus
  blocklist : M
  ctx : XdpContext

/-- `STATS`: each processor counts in a slot of its own. -/
abbrev StatsMap (cpus : Nat) := Fin cpus → Stats

/-- `STATS` as it is made. -/
def StatsMap.zeroed : StatsMap cpus := fun _ => ⟨0, 0, 0, 0⟩

/-- The program at work on the frames of all processors. -/
def xdpMachine : Machine (StatsMap cpus) (Arrival M cpus) XdpOutcome := fun stats a =>
  let out := nsmXdp a.blocklist a.ctx (stats a.cpu)
  (out, Function.update stats a.cpu out.stats)

/-- The frame has a source whose entry is enforced. -/
def Arrival.enforced (a : Arrival M cpus) : Bool :=
  Nsm.enforced a.blocklist a.ctx.nowNs (ipv4Source a.ctx)

/-- `dropped` is the number of the frames that were dropped, and a frame that `truncated` counts was
passed. -/
def Accounted (frames : List (Arrival M cpus)) : Prop :=
  (∑ cpu, ((xdpMachine.run .zeroed frames).2 cpu).dropped =
    (xdpMachine.run .zeroed frames).1.countP (·.action = .drop)) ∧
  xdpMachine.Each (fun stats a =>
    (nsmXdp a.blocklist a.ctx (stats a.cpu)).stats.truncated ≠ (stats a.cpu).truncated →
      (nsmXdp a.blocklist a.ctx (stats a.cpu)).action = .pass) .zeroed frames

/-! ## One run of the program -/

/-- A frame of an enforced source is dropped, and counted by whether its event found room. -/
theorem nsmXdp_of_enforced {blocklist : M} {ctx : XdpContext}
    (h : enforced blocklist ctx.nowNs (ipv4Source ctx) = true) (stats : Stats) :
    (nsmXdp blocklist ctx stats).action = .drop ∧
      (nsmXdp blocklist ctx stats).stats =
        if ctx.ringHasRoom then { stats with dropped := stats.dropped + 1 }
        else { stats with truncated := stats.truncated + 1 } := by
  refine ⟨(nsmXdp_drop_iff_enforced blocklist ctx stats).mpr h, ?_⟩
  unfold nsmXdp tryNsmXdp
  unfold ipv4Source at h
  cases hp : parseIp ctx with
  | error e => simp [hp, enforced] at h
  | ok r =>
    cases r with
    | none => simp [hp, enforced] at h
    | some ip =>
      rw [hp] at h
      simp only [bind, Except.bind, h, if_true]
      cases ctx.ringHasRoom <;> rfl

/-- Any other is passed, and `dropped` stays. -/
theorem nsmXdp_of_not_enforced {blocklist : M} {ctx : XdpContext}
    (h : enforced blocklist ctx.nowNs (ipv4Source ctx) = false) (stats : Stats) :
    (nsmXdp blocklist ctx stats).action = .pass ∧
      (nsmXdp blocklist ctx stats).stats.dropped = stats.dropped := by
  unfold nsmXdp tryNsmXdp
  unfold ipv4Source at h
  cases hp : parseIp ctx with
  | error e => exact ⟨rfl, rfl⟩
  | ok r =>
    cases r with
    | none => exact ⟨rfl, rfl⟩
    | some ip =>
      rw [hp] at h
      simp only [bind, Except.bind, h]
      cases ctx.ringHasRoom <;> exact ⟨rfl, rfl⟩

/-! ## What the counters lose -/

/-- The frame is dropped and its event finds no room. -/
def Arrival.lost (a : Arrival M cpus) : Nat :=
  if a.enforced ∧ a.ctx.ringHasRoom = false then 1 else 0

theorem Arrival.lost_eq_zero_iff (a : Arrival M cpus) :
    a.lost = 0 ↔ (a.enforced = true → a.ctx.ringHasRoom = true) := by
  unfold lost
  split
  · next h => simp [h]
  · next h => simpa using h

/-- One slot changes. -/
theorem sum_dropped_update (stats : StatsMap cpus) (cpu : Fin cpus) (new : Stats) :
    ∑ c, (Function.update stats cpu new c).dropped + (stats cpu).dropped =
      ∑ c, (stats c).dropped + new.dropped := by
  have hslot (c : Fin cpus) : (Function.update stats cpu new c).dropped =
      Function.update (fun c => (stats c).dropped) cpu new.dropped c :=
    congrFun (Function.comp_update Stats.dropped stats cpu new) c
  have hold := Finset.sum_eq_add_sum_sdiff_singleton_of_mem (Finset.mem_univ cpu)
    fun c => (stats c).dropped
  rw [Finset.sum_congr rfl fun c _ => hslot c, Finset.sum_update_of_mem (Finset.mem_univ cpu)]
  omega

/-- The processors count together the dropped frames, but for those that are lost. -/
theorem xdpMachine_accounts :
    Machine.Accounts xdpMachine (fun stats => ∑ cpu : Fin cpus, (stats cpu).dropped)
      (fun out => if out.action = .drop then 1 else 0) (fun _ => 0)
      fun _ (a : Arrival M cpus) => a.lost := by
  intro stats a
  have hsum := sum_dropped_update stats a.cpu (nsmXdp a.blocklist a.ctx (stats a.cpu)).stats
  dsimp only [xdpMachine]
  cases henforced : a.enforced with
  | true =>
    obtain ⟨haction, hstats⟩ := nsmXdp_of_enforced henforced (stats a.cpu)
    rw [hstats] at hsum ⊢
    rw [haction, Arrival.lost, henforced]
    cases hroom : a.ctx.ringHasRoom <;> simp only [hroom] at hsum ⊢ <;> simp at hsum ⊢ <;> omega
  | false =>
    obtain ⟨haction, hdropped⟩ := nsmXdp_of_not_enforced henforced (stats a.cpu)
    rw [haction, Arrival.lost, henforced]
    rw [hdropped] at hsum
    simp only [Bool.false_eq_true, false_and, if_false, reduceCtorEq]
    omega

theorem countP_eq_sum {α : Type} (p : α → Bool) (l : List α) :
    l.countP p = (l.map fun a => if p a then 1 else 0).sum := by
  induction l with
  | nil => rfl
  | cons a l ih => rw [List.countP_cons, ih, List.map_cons, List.sum_cons, Nat.add_comm]

/-- `dropped` is the number of dropped frames where none is lost. -/
theorem sum_dropped_eq_iff (frames : List (Arrival M cpus)) :
    ∑ cpu, ((xdpMachine.run .zeroed frames).2 cpu).dropped =
        (xdpMachine.run .zeroed frames).1.countP (·.action = .drop) ↔
      ∀ a ∈ frames, a.enforced = true → a.ctx.ringHasRoom = true := by
  have hzero : ∑ cpu, ((StatsMap.zeroed : StatsMap cpus) cpu).dropped = 0 :=
    Finset.sum_const_zero
  have hbalanced := xdpMachine_accounts.balanced_iff hzero frames
  rw [Machine.each_iff_forall] at hbalanced
  simp only [Arrival.lost_eq_zero_iff, List.sum_map_zero, Nat.zero_add] at hbalanced
  rw [countP_eq_sum, ← hbalanced]
  simp only [decide_eq_true_eq]

/-- A frame that `truncated` counts was passed, unless it is lost. -/
theorem pass_of_truncated_iff (stats : StatsMap cpus) (a : Arrival M cpus) :
    ((nsmXdp a.blocklist a.ctx (stats a.cpu)).stats.truncated ≠ (stats a.cpu).truncated →
        (nsmXdp a.blocklist a.ctx (stats a.cpu)).action = .pass) ↔
      (a.enforced = true → a.ctx.ringHasRoom = true) := by
  cases henforced : a.enforced with
  | true =>
    obtain ⟨haction, hstats⟩ := nsmXdp_of_enforced henforced (stats a.cpu)
    rw [haction, hstats]
    cases a.ctx.ringHasRoom <;> simp
  | false =>
    obtain ⟨haction, -⟩ := nsmXdp_of_not_enforced henforced (stats a.cpu)
    simp [haction]

/-- From zeroed counters the counters account for the verdicts, if and only if each frame that was
dropped found room for its event. -/
theorem frames_accounted_iff (frames : List (Arrival M cpus)) :
    Accounted frames ↔ ∀ a ∈ frames, a.enforced = true → a.ctx.ringHasRoom = true := by
  rw [Accounted, sum_dropped_eq_iff, Machine.Each.congr pass_of_truncated_iff,
    Machine.each_iff_forall, and_self]

/-- A blocklist with 10.0.0.9/32. -/
def oneBlocked : ListTrie 32 UInt64 16 :=
  (PrefixMap.insert PrefixMap.empty ⟨32, Ipv4Addr.new 10 0 0 9⟩ 300).getD PrefixMap.empty

/-- A frame from there, with a full ring buffer, is dropped, and counted as one that was passed. -/
theorem not_frames_accounted :
    ¬ ∀ frames : List (Arrival (ListTrie 32 UInt64 16) 1), Accounted frames := by
  intro h
  have hlost := (sum_dropped_eq_iff _).mp
    (h [⟨0, oneBlocked, { minimalContext (Ipv4Addr.new 10 0 0 9) 7 with ringHasRoom := false }⟩]).1
  exact absurd (hlost _ (.head _) (by decide)) (by decide)

end ActiveDefense.Nsm
