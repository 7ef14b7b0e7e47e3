import ActiveDefense.Firewall.Workers
import ActiveDefense.Lib.Slots

/-!
# The bounds of the tables under threads

Both tables compare their length with their bound in one step and insert in a later one. The
threads that are past the check take part in what the bound is about: `tables_bounded` shows that
both bounds hold in every run in which a thread passes the check only while the entries together
with the keys of the threads past the check leave room. Without that, two workers that pass the
check one after the other both insert (`not_tables_bounded`), and every run that misses the
condition once can go on past a bound (`exceeds_of_not_checksReserve`).
-/

namespace ActiveDefense.Firewall

/-- The address of a thread that is past the check of `ban`. -/
def Phase.admittedIp : Phase → Option IpAddr
  | .banAdmitted ip _ _ => some ip
  | _ => none

/-- The flow of a thread that is past the check of `lookup_or_admit`. -/
def Phase.admittedFlow : Phase → Option FlowKey
  | .newFlow pkt => some pkt.flowKey
  | _ => none

namespace Workers

section
variable {ι κ : Type} [DecidableEq ι]

/-- A set of keys, with the threads that are about to insert one. -/
def slotsOf (present : Set κ) (admitted : Phase → Option κ) (phase : ι → Phase) : Slots ι κ where
  present := present
  admitted i := admitted (phase i)

/-- The ban list as a bounded set. -/
def banSlots (s : Workers ι) : Slots ι IpAddr :=
  slotsOf {ip | ip ∈ s.quarantine.table} Phase.admittedIp s.phase

/-- The connection table as a bounded set. -/
def flowSlots (s : Workers ι) : Slots ι FlowKey :=
  slotsOf {key | key ∈ s.conntrack.table} Phase.admittedFlow s.phase

/-- A thread passes a check only if the keys in the table and those of the threads past the check
leave room for its own. -/
def ChecksReserve (s : Workers ι) : Access ι → Prop
  | .banLen i => ∀ ip duration newExpiry, s.phase i = .banningNew ip duration newExpiry →
      s.quarantine.table.len < s.quarantine.maxEntries →
        s.banSlots.Reserves s.quarantine.maxEntries (.grant i ip)
  | .flowLen i => ∀ pkt, s.phase i = .lookingUp pkt →
      s.conntrack.table.len < s.conntrack.cfg.maxEntries →
        s.flowSlots.Reserves s.conntrack.cfg.maxEntries (.grant i pkt.flowKey)
  | _ => True

/-! ## The steps of the bounded sets -/

section
variable {bound : ℕ∞} {present present' : Set κ} {admitted : Phase → Option κ}
  {phase : ι → Phase} {i : ι} {p : Phase} {k : κ}

theorem slotsOf_update : slotsOf present admitted (Function.update phase i p) =
    { slotsOf present admitted phase with
      admitted := Function.update (slotsOf present admitted phase).admitted i (admitted p) } := by
  simp only [slotsOf, Slots.mk.injEq, true_and]
  funext j
  exact Function.apply_update (fun _ => admitted) phase i p j

/-- A thread that goes on to a place where it is not about to insert. -/
theorem step_withdraw (hp : admitted p = none) :
    Slots.Step bound (slotsOf present admitted phase) (.withdraw i)
      (slotsOf present admitted (Function.update phase i p)) := by
  rw [slotsOf_update, hp]
  exact .withdraw

/-- A thread that passes the check. -/
theorem step_grant (hp : admitted p = some k) (h : k ∈ present ∨ present.encard < bound) :
    Slots.Step bound (slotsOf present admitted phase) (.grant i k)
      (slotsOf present admitted (Function.update phase i p)) := by
  rw [slotsOf_update, hp]
  exact .grant h

/-- A thread that inserts its key. -/
theorem step_insert (hi : admitted (phase i) = some k) (hp : admitted p = none)
    (hpresent : present' = insert k present) :
    Slots.Step bound (slotsOf present admitted phase) (.insert i)
      (slotsOf present' admitted (Function.update phase i p)) := by
  rw [slotsOf_update, hp, hpresent]
  exact .insert hi

/-- Keys that are removed. -/
theorem step_remove (h : present' ⊆ present) :
    Slots.Step bound (slotsOf present admitted phase) (.remove present'ᶜ)
      (slotsOf present' admitted phase) := by
  have hgone : present' = present \ present'ᶜ := by
    rw [Set.sdiff_compl, Set.inter_eq_right.mpr h]
  conv => rhs; rw [hgone]
  exact .remove

/-- Keys that a thread removes, on the way from one place to another, about to insert at neither. -/
theorem step_remove_update (h : present' ⊆ present) (hi : admitted (phase i) = none)
    (hp : admitted p = none) :
    Slots.Step bound (slotsOf present admitted phase) (.remove present'ᶜ)
      (slotsOf present' admitted (Function.update phase i p)) := by
  have hsame : slotsOf present' admitted (Function.update phase i p) =
      slotsOf present' admitted phase := by
    rw [slotsOf_update, hp]
    exact congrArg (Slots.mk present') (Function.update_eq_self_iff.mpr hi.symm)
  rw [hsame]
  exact step_remove h

end

/-! ## The tables are bounded sets -/

variable {s t : Workers ι} {a : Access ι}

/-- What a step does to the ban list is a step of the bounded set. -/
theorem Step.banSlots (h : Step s a t) : ∃ b,
    Slots.Step s.quarantine.maxEntries s.banSlots b t.banSlots ∧
      (s.ChecksReserve a → s.banSlots.Reserves s.quarantine.maxEntries b) := by
  cases h with
  | ban | containsKey_false | banLen_full | sweep | retained | enqueued | getMut_none |
    flowLen_full | flowLen_room | recordNew | notAccepted =>
    exact ⟨_, step_withdraw rfl, fun _ => trivial⟩
  | manualUnban_absent | getMut_some | sweepFlows | syncWorker | tick =>
    exact ⟨.skip, .skip, fun _ => trivial⟩
  | containsKey_true _ hmem =>
    exact ⟨_, step_grant rfl (.inl hmem), fun _ => .inl (.inl hmem)⟩
  | banLen_room hphase hroom =>
    refine ⟨_, step_grant rfl (.inr ?_), fun hok => hok _ _ _ hphase hroom⟩
    rw [Table.encard_keys]
    exact_mod_cast hroom
  | entry hphase =>
    refine ⟨_, step_insert (by rw [hphase]; rfl) rfl ?_, fun _ => trivial⟩
    ext ip
    exact Quarantine.mem_upsert
  | @manualUnban_present i ip hphase hmem =>
    have hsub : {ip' | ip' ∈ s.quarantine.table.erase ip} ⊆ {ip' | ip' ∈ s.quarantine.table} :=
      fun ip' hip' => (AList.mem_erase.mp hip').2
    exact ⟨_, step_remove_update hsub (by rw [hphase]; rfl) rfl, fun _ => trivial⟩
  | @retain i now expired shard hphase =>
    have hsub : {ip | ip ∈ (s.quarantine.retainIn shard now).table} ⊆
        {ip | ip ∈ s.quarantine.table} :=
      fun ip hip => Table.mem_of_mem_retain hip
    exact ⟨_, step_remove_update hsub (by rw [hphase]; rfl) rfl, fun _ => trivial⟩
  | @enqueue i job jobs hphase =>
    refine ⟨.withdraw i, ?_, fun _ => trivial⟩
    rw [Workers.banSlots, Workers.banSlots, quarantine_goto, Quarantine.table_enqueueSync]
    exact step_withdraw rfl

/-- What a step does to the connection table is a step of the bounded set. -/
theorem Step.flowSlots (h : Step s a t) : ∃ b,
    Slots.Step s.conntrack.cfg.maxEntries s.flowSlots b t.flowSlots ∧
      (s.ChecksReserve a → s.flowSlots.Reserves s.conntrack.cfg.maxEntries b) := by
  cases h with
  | ban | containsKey_true | containsKey_false | banLen_full | banLen_room | entry |
    manualUnban_present | sweep | retain | retained | enqueue | enqueued | getMut_none |
    flowLen_full | notAccepted =>
    exact ⟨_, step_withdraw rfl, fun _ => trivial⟩
  | manualUnban_absent | syncWorker | tick => exact ⟨.skip, .skip, fun _ => trivial⟩
  | getMut_some =>
    refine ⟨_, step_remove fun key hkey => ConnTrack.mem_lookupOrAdmit.mp hkey, fun _ => trivial⟩
  | flowLen_room hphase hroom =>
    refine ⟨_, step_grant rfl (.inr ?_), fun hok => hok _ hphase hroom⟩
    rw [Table.encard_keys]
    exact_mod_cast hroom
  | recordNew hphase =>
    refine ⟨_, step_insert (by rw [hphase]; rfl) rfl ?_, fun _ => trivial⟩
    ext key
    exact ConnTrack.mem_recordNew
  | sweepFlows =>
    exact ⟨_, step_remove fun key hkey => Table.mem_of_mem_retain hkey, fun _ => trivial⟩

/-- No step changes a bound. -/
theorem Step.bounds (h : Step s a t) : t.quarantine.maxEntries = s.quarantine.maxEntries ∧
    t.conntrack.cfg = s.conntrack.cfg := by
  cases h with
  | enqueue => exact ⟨Quarantine.maxEntries_enqueueSync, rfl⟩
  | getMut_some =>
    refine ⟨rfl, ?_⟩
    show (s.conntrack.lookupOrAdmit _ _).2.cfg = _
    rw [ConnTrack.lookupOrAdmit]
    split
    · rfl
    · split <;> rfl
  | _ => exact ⟨rfl, rfl⟩

/-- What holds along a run whose checks meet the condition: neither table has more keys reserved
than its bound. -/
structure Bounded (cfg : Config) (s : Workers ι) : Prop where
  banBound : s.quarantine.maxEntries = cfg.quarantineMaxEntries
  flowBound : s.conntrack.cfg = cfg.conntrack
  bans : s.banSlots.reserved.encard ≤ cfg.quarantineMaxEntries
  flows : s.flowSlots.reserved.encard ≤ cfg.conntrack.maxEntries

omit [DecidableEq ι] in
theorem reserved_eq_empty {present : Set κ} {admitted : Phase → Option κ} {phase : ι → Phase}
    (hpresent : ∀ k, k ∉ present) (hphase : ∀ i, admitted (phase i) = none) :
    (slotsOf present admitted phase).reserved = ∅ := by
  refine Set.eq_empty_of_forall_notMem ?_
  rintro k (hk | ⟨i, hi⟩)
  · exact hpresent k hk
  · cases (hphase i).symm.trans hi

omit [DecidableEq ι] in
theorem bounded_start {cfg : Config} {osSync : Option SyncQueue} {sync : OsFirewallSync} :
    Bounded cfg (start cfg osSync sync : Workers ι) := by
  constructor
  · cases osSync <;> rfl
  · rfl
  · rw [Workers.banSlots, reserved_eq_empty _ fun _ => rfl, Set.encard_empty]
    · exact bot_le
    · intro ip hip
      cases osSync <;> exact AList.notMem_empty ip hip
  · rw [Workers.flowSlots, reserved_eq_empty _ fun _ => rfl, Set.encard_empty]
    · exact bot_le
    · exact fun key hkey => AList.notMem_empty key hkey

/-- The step lemma. -/
theorem Bounded.step {cfg : Config} (hs : Bounded cfg s) (hok : s.ChecksReserve a)
    (hst : Step s a t) : Bounded cfg t := by
  obtain ⟨b, hban, hbanReserves⟩ := hst.banSlots
  obtain ⟨c, hflow, hflowReserves⟩ := hst.flowSlots
  have hbans := hban.reserved_le (hbanReserves hok)
  have hflows := hflow.reserved_le (hflowReserves hok)
  rw [hs.banBound] at hbans
  rw [hs.flowBound] at hflows
  exact ⟨hst.bounds.1.trans hs.banBound, hst.bounds.2.trans hs.flowBound, hbans hs.bans,
    hflows hs.flows⟩

omit [DecidableEq ι] in
/-- Bounded sets of keys are tables within their bounds. -/
theorem Bounded.len_le {cfg : Config} (hs : Bounded cfg s) :
    s.quarantine.table.len ≤ cfg.quarantineMaxEntries ∧
      s.conntrack.table.len ≤ cfg.conntrack.maxEntries := by
  have hbans : (s.quarantine.table.len : ℕ∞) ≤ cfg.quarantineMaxEntries := by
    rw [← Table.encard_keys]
    exact (Set.encard_le_encard fun ip hip => .inl hip).trans hs.bans
  have hflows : (s.conntrack.table.len : ℕ∞) ≤ cfg.conntrack.maxEntries := by
    rw [← Table.encard_keys]
    exact (Set.encard_le_encard fun key hkey => .inl hkey).trans hs.flows
  exact ⟨by exact_mod_cast hbans, by exact_mod_cast hflows⟩

/-! ## What follows a check that misses the condition -/

/-- A thread past the check of `ban` can always insert its address. -/
theorem exists_entry {bound : ℕ∞} (s : Workers ι) (i : ι) (ip : IpAddr)
    (hi : s.banSlots.admitted i = some ip) :
    ∃ a t, Step s a t ∧ Slots.Step bound s.banSlots (.insert i) t.banSlots := by
  have hphase : ∃ duration newExpiry, s.phase i = .banAdmitted ip duration newExpiry := by
    simp only [Workers.banSlots, slotsOf, Phase.admittedIp] at hi
    split at hi
    · next hphase =>
      cases hi
      exact ⟨_, _, hphase⟩
    · cases hi
  obtain ⟨duration, newExpiry, hphase⟩ := hphase
  refine ⟨_, _, .entry hphase, step_insert hi rfl ?_⟩
  ext ip'
  exact Quarantine.mem_upsert

/-- A thread past the check of `lookup_or_admit` can always insert its flow. -/
theorem exists_recordNew {bound : ℕ∞} (s : Workers ι) (i : ι) (key : FlowKey)
    (hi : s.flowSlots.admitted i = some key) :
    ∃ a t, Step s a t ∧ Slots.Step bound s.flowSlots (.insert i) t.flowSlots := by
  have hphase : ∃ pkt, s.phase i = .newFlow pkt ∧ pkt.flowKey = key := by
    simp only [Workers.flowSlots, slotsOf, Phase.admittedFlow] at hi
    split at hi
    · next pkt hphase =>
      cases hi
      exact ⟨_, hphase, rfl⟩
    · cases hi
  obtain ⟨pkt, hphase, rfl⟩ := hphase
  refine ⟨.recordNew i 0, _, .recordNew hphase, step_insert hi rfl ?_⟩
  ext key'
  exact ConnTrack.mem_recordNew

/-- After a check that misses the condition, a table can go past its bound. -/
theorem exceeds_of_not_checksReserve (hst : Step s a t) (h : ¬ s.ChecksReserve a) :
    ∃ u, Reachable Step t u ∧ (s.quarantine.maxEntries < u.quarantine.table.len ∨
      s.conntrack.cfg.maxEntries < u.conntrack.table.len) := by
  cases hst with
  | @banLen_room i ip duration newExpiry hphase hroom =>
    have hnot : ¬ s.banSlots.Reserves s.quarantine.maxEntries (.grant i ip) := by
      intro hreserves
      refine h fun ip' duration' newExpiry' hphase' _ => ?_
      cases hphase.symm.trans hphase'
      exact hreserves
    have hnone : s.banSlots.admitted i = none := by
      show (s.phase i).admittedIp = none
      rw [hphase]
      rfl
    have hgoto : (s.goto i (.banAdmitted ip duration newExpiry)).banSlots =
        { s.banSlots with admitted := Function.update s.banSlots.admitted i (some ip) } :=
      slotsOf_update
    obtain ⟨u, hreach, hlen⟩ := Slots.exists_overflow_of_not_reserves exists_entry hnot hnone
      (ENat.natCast_ne_top _) hgoto
    refine ⟨u, hreach, .inl ?_⟩
    rw [Workers.banSlots, slotsOf, Table.encard_keys] at hlen
    exact_mod_cast hlen
  | @flowLen_room i pkt hphase hroom =>
    have hnot : ¬ s.flowSlots.Reserves s.conntrack.cfg.maxEntries (.grant i pkt.flowKey) := by
      intro hreserves
      refine h fun pkt' hphase' _ => ?_
      cases hphase.symm.trans hphase'
      exact hreserves
    have hnone : s.flowSlots.admitted i = none := by
      show (s.phase i).admittedFlow = none
      rw [hphase]
      rfl
    have hgoto : (s.goto i (.newFlow pkt)).flowSlots =
        { s.flowSlots with
          admitted := Function.update s.flowSlots.admitted i (some pkt.flowKey) } :=
      slotsOf_update
    obtain ⟨u, hreach, hlen⟩ := Slots.exists_overflow_of_not_reserves exists_recordNew hnot hnone
      (ENat.natCast_ne_top _) hgoto
    refine ⟨u, hreach, .inr ?_⟩
    rw [Workers.flowSlots, slotsOf, Table.encard_keys] at hlen
    exact_mod_cast hlen
  | @banLen_full i ip duration newExpiry hphase hfull =>
    exact absurd (fun _ _ _ _ hroom => absurd hfull (Nat.not_le.mpr hroom)) h
  | @flowLen_full i pkt hphase hfull =>
    exact absurd (fun _ _ hroom => absurd hfull (Nat.not_le.mpr hroom)) h
  | _ => exact absurd trivial h

end

end Workers

/-! ## Two workers -/

open Workers in
/-- In every run of any number of threads in which a thread passes a check only while the entries
and the keys of the threads past the check leave room, neither table holds more than its bound. -/
theorem tables_bounded {ι : Type} [DecidableEq ι] {cfg : Config} {osSync : Option SyncQueue}
    {sync : OsFirewallSync} {as : List (Access ι)} {s : Workers ι}
    (h : Run Step ChecksReserve (start cfg osSync sync) as s) :
    s.quarantine.table.len ≤ cfg.quarantineMaxEntries ∧
      s.conntrack.table.len ≤ cfg.conntrack.maxEntries :=
  (h.invariant (I := Bounded cfg) bounded_start fun _ _ _ hs hok hst => hs.step hok hst).len_le

/-- The tables of two threads, with a ban list for a number of addresses. -/
def twoWorkers (maxEntries : Nat) : Workers Bool :=
  .start { quarantineMaxEntries := maxEntries } none (.nftables false)

/-- One of them past the check. -/
def oneAdmitted (maxEntries : Nat) : Workers Bool :=
  (twoWorkers maxEntries).goto true (.banAdmitted (hostIp 1) 10 10)

/-- Both of them past the check. -/
def bothAdmitted (maxEntries : Nat) : Workers Bool :=
  (oneAdmitted maxEntries).goto false (.banAdmitted (hostIp 2) 10 10)

/-- The ban list after both have inserted. -/
def bothBanned (maxEntries : Nat) : Quarantine :=
  ((bothAdmitted maxEntries).quarantine.upsert (hostIp 1) 10).upsert (hostIp 2) 10

open Workers in
/-- Both pass the check before either inserts, with a ban list for two addresses. -/
theorem tables_bounded_two : (bothBanned 2).table.len ≤ 2 := by
  have hadd : Instant.add 0 10 = .ok 10 := rfl
  have hfirst : ChecksReserve ((twoWorkers 2).goto true (.banningNew (hostIp 1) 10 10))
      (.banLen true) := by
    refine fun _ _ _ _ _ => .inr ?_
    have hempty : ((twoWorkers 2).goto true (.banningNew (hostIp 1) 10 10)).banSlots.reserved = ∅ :=
      reserved_eq_empty (fun ip hip => AList.notMem_empty ip hip) (by decide)
    rw [hempty, Set.encard_empty]
    decide
  have hsecond : ChecksReserve ((oneAdmitted 2).goto false (.banningNew (hostIp 2) 10 10))
      (.banLen false) := by
    refine fun _ _ _ _ _ => .inr ?_
    have hone : ((oneAdmitted 2).goto false (.banningNew (hostIp 2) 10 10)).banSlots.reserved ⊆
        {hostIp 1} := by
      rintro ip (hip | ⟨_ | _, hi⟩)
      · exact absurd hip (AList.notMem_empty ip)
      · cases hi
      · cases hi
        rfl
    refine (Set.encard_le_encard hone).trans_lt ?_
    rw [Set.encard_singleton]
    decide
  have hcheck : Run Step ChecksReserve (twoWorkers 2) _ (oneAdmitted 2) :=
    ((Run.nil.snoc trivial (.ban rfl hadd)).snoc (by trivial)
      (step_containsKey (by decide))).snoc hfirst (step_banLen (by decide))
  have hboth : Run Step ChecksReserve (twoWorkers 2) _ (bothAdmitted 2) :=
    ((hcheck.snoc (by trivial) (.ban rfl hadd)).snoc (by trivial)
      (step_containsKey (by decide))).snoc hsecond (step_banLen (by decide))
  have hrun := (hboth.snoc (by trivial) (.entry (i := true) rfl)).snoc (by trivial)
    (.entry (i := false) rfl)
  exact (tables_bounded hrun).1

open Workers in
/-- With a ban list for one address, both pass the check while it is empty, and both insert. -/
theorem not_tables_bounded :
    ¬ ∀ (ι : Type) [DecidableEq ι] (cfg : Config) (osSync : Option SyncQueue)
      (sync : OsFirewallSync) (as : List (Access ι)) (s : Workers ι),
      Run Step (fun _ _ => True) (start cfg osSync sync) as s →
        s.quarantine.table.len ≤ cfg.quarantineMaxEntries ∧
          s.conntrack.table.len ≤ cfg.conntrack.maxEntries := by
  intro h
  have hadd : Instant.add 0 10 = .ok 10 := rfl
  have hfirst : Runs (twoWorkers 1) _ (oneAdmitted 1) :=
    runs_check rfl hadd (by decide) (by decide)
  have hsecond : Runs (oneAdmitted 1) _ (bothAdmitted 1) :=
    runs_check rfl hadd (by decide) (by decide)
  have hrun := ((hfirst.append hsecond).snoc trivial (.entry (i := true) rfl)).snoc trivial
    (.entry (i := false) rfl)
  have hlen : (bothBanned 1).table.len ≤ 1 := (h _ _ _ _ _ _ hrun).1
  exact absurd hlen (by decide)

end ActiveDefense.Firewall
