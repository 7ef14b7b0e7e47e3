import ActiveDefense.Siem.BlockExpiry

/-!
# Hosts that are never to be contained

The orchestrator hands the allowlist of its configuration to the response policy as it stands, and
the policy looks the text of a verdict's host up in it. That text is the canonical one of the
address, and an IPv6 address has others that parse to it. A host that an entry names is spared in
every run if and only if its canonical text is an entry, too (`spares_iff`).
-/

namespace ActiveDefense.Siem

/-- An entry of the allowlist is a text of the address. -/
def Names (allowlist : List Str) (host : IpAddr) : Prop :=
  ∃ entry ∈ allowlist, parseIpAddr entry = some host

namespace VerdictLoop

/-- If the allowlist names the host, no run of the loop executes the action on it. -/
def Spares (minSeverity : Response.Severity) (allowlist : List Str) (clock : Instant)
    (host : IpAddr) : Prop :=
  Names allowlist host → ∀ (ts : List (VerdictTurn Float)) (l : VerdictLoop Float),
    Run Step (fun _ _ => True) (start minSeverity allowlist clock) ts l →
      ∀ e ∈ l.gated.executions, e.targetIp ≠ host.display

/-! ## What is on the allowlist -/

section
variable {φ : Type} [FloatArith φ] {minSeverity : Response.Severity} {allowlist : List Str}
  {clock : Instant}

theorem guarded_start : Guarded (.new minSeverity allowlist)
    (start minSeverity allowlist clock : VerdictLoop φ).gated clock :=
  ⟨ReviewQueue.sound_initial _ _, ⟨rfl, rfl, rfl, rfl⟩, nofun, limited_nil clock⟩

theorem guarded_step {policy : ResponsePolicy} {l l' : VerdictLoop φ} {t : VerdictTurn φ}
    (h : Guarded policy l.gated l.clock) (hstep : Step l t l') :
    Guarded policy l'.gated l'.clock := by
  obtain ⟨htimes, rfl⟩ := hstep
  obtain ⟨hchecked, hexecuted, hpushed, hblocked⟩ : l.clock ≤ t.attempt.checkedAt ∧
      t.attempt.checkedAt ≤ t.attempt.executedAt ∧ t.attempt.executedAt ≤ t.attempt.pushedAt ∧
      t.attempt.pushedAt ≤ t.attempt.blockedAt := by
    simpa using htimes
  exact h.handleFlowPrediction (l.flowPrediction t) t.enqueuedAt t.alert t.targetIp hchecked
    hexecuted hpushed hblocked

/-- No action is executed on what the allowlist has. -/
theorem not_mem_allowlist_of_run {ts : List (VerdictTurn φ)} {l : VerdictLoop φ}
    (h : Run Step (fun _ _ => True) (start minSeverity allowlist clock) ts l) {e : Execution}
    (he : e ∈ l.gated.executions) : e.targetIp ∉ allowlist := by
  have hguarded : Guarded (.new minSeverity allowlist) l.gated l.clock :=
    h.invariant (I := fun l => Guarded _ l.gated l.clock) guarded_start
      fun _ _ _ hs _ hstep => guarded_step hs hstep
  have htarget := (hguarded.justified e he).target
  rwa [hguarded.configured.allowlist] at htarget

end

/-! ## What is not -/

/-- The gravest verdict on a host, from two lanes. -/
def critical (host : IpAddr) (now : Instant) : VerdictTurn Float where
  verdict := ⟨host, .critical, 0.95, [.xdp, .clamAv], [], .multiLaneCorroboration, now, now⟩
  observedAt := 1700000000
  enqueuedAt := 1700000000
  attempt := ⟨true, now, now, now, now⟩

theorem rank_le_critical (severity : Response.Severity) :
    severity.rank ≤ Response.Severity.critical.rank := by
  cases severity <;> decide

/-- The gate has nothing yet that would keep a verdict from the policy. -/
theorem released_start (minSeverity : Response.Severity) (allowlist : List Str) (clock : Instant)
    (host : IpAddr) : (start minSeverity allowlist clock).Released (critical host clock) where
  reason := rfl
  confident := (by decide : ¬ (0.95 : Float) < 0.90)
  flow := AList.notMem_empty _
  decision := AList.notMem_empty _

/-- Nor has the policy, but for the allowlist. -/
theorem permits_start {allowlist : List Str} {host : IpAddr} (h : host.display ∉ allowlist)
    (minSeverity : Response.Severity) (clock : Instant) :
    ResponsePolicy.Permits (.new minSeverity allowlist) (critical host clock).alert
      (critical host clock).targetIp clock where
  severity := rank_le_critical minSeverity
  target := h
  rate := (by decide : (UInt32.ofNat 0) < 10)

/-- One verdict on a host whose text the allowlist has not is acted on. -/
theorem exists_execution {allowlist : List Str} {host : IpAddr} (h : host.display ∉ allowlist)
    (minSeverity : Response.Severity) (clock : Instant) :
    ∃ l : VerdictLoop Float, Run Step (fun _ _ => True) (start minSeverity allowlist clock)
      [critical host clock] l ∧ ∃ e ∈ l.gated.executions, e.targetIp = host.display := by
  have hacted : ¬ (start minSeverity allowlist clock).Acted (critical host clock) :=
    fun ⟨_, he, _⟩ => nomatch he
  obtain ⟨gated, hhandle, hexecuted⟩ := (blocks_start minSeverity allowlist clock).executed
    (released_start minSeverity allowlist clock host) (permits_start h minSeverity clock) rfl hacted
  refine ⟨_, .single trivial ⟨?_, rfl⟩, ?_⟩
  · simp [critical, start]
  · unfold next
    rw [hhandle]
    exact hexecuted

/-- A host is spared if and only if the allowlist has its canonical text where it names it at
all. -/
theorem spares_iff (minSeverity : Response.Severity) (allowlist : List Str) (clock : Instant)
    (host : IpAddr) : Spares minSeverity allowlist clock host ↔
      (Names allowlist host → host.display ∈ allowlist) := by
  constructor
  · intro hspares hnames
    by_contra hmissing
    obtain ⟨l, hrun, e, he, htarget⟩ := exists_execution hmissing minSeverity clock
    exact hspares hnames _ l hrun e he htarget
  · intro hlisted hnames ts l hrun e he htarget
    exact not_mem_allowlist_of_run hrun he (htarget ▸ hlisted hnames)

/-- An entry in capital letters. -/
theorem not_spares : ¬ Spares .high ["2001:DB8::1".toList] 0
    (.v6 0x20010db8000000000000000000000001) := by
  rw [spares_iff]
  intro hlisted
  exact absurd (hlisted ⟨_, .head _, by decide⟩) (by decide)

end VerdictLoop

end ActiveDefense.Siem
