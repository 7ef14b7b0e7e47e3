import ActiveDefense.Firewall.Conntrack
import ActiveDefense.Firewall.Quarantine
import ActiveDefense.Lib.Run

/-!
# Threads on the shared tables

The ban list and the connection table are concurrent maps, and an operation of theirs is several
accesses to the map: `ban` looks the address up, reads the length, updates the entry and only then
queues a job for the firewall of the host. Here every such access is a step of its own, taken by
any of the threads at any time: the workers of the packet loop, the maintenance thread, the one
that serves the administrator. The length is read in one step, and `retain` works through the map
one shard after the other. The worker that takes the jobs is a thread as well; its commands all
succeed. The firewall of the host has a clock of its own: what `nft` was given for a number of
seconds is gone after them, whatever the threads do.

`runs_ban`, `runs_manualUnban`, `runs_sweepExpired` and `runs_recordNew` show that the steps of one
thread that is not interrupted are those operations.
-/

namespace ActiveDefense.Firewall

/-- The `entry(ip).and_modify(..).or_insert(..)` of `ban`. -/
def Quarantine.upsert (q : Quarantine) (ip : IpAddr) (newExpiry : Instant) : Quarantine :=
  { q with
    table := q.table.insert ip
      (match q.table.lookup ip with
      | some expiry => if expiry < newExpiry then newExpiry else expiry
      | none => newExpiry)
    bansTotal := q.bansTotal + 1 }

/-- The entries of a shard that have ended, which `retain` collects for `sweep_expired`. -/
def Quarantine.expiredIn (q : Quarantine) (shard : List IpAddr) (now : Instant) : List IpAddr :=
  (q.table.entries.filter fun e : (_ : IpAddr) × Instant =>
    decide (e.1 ∈ shard) && !decide (now < e.2)).map Sigma.fst

/-- The ban list without the entries of a shard that have ended. -/
def Quarantine.retainIn (q : Quarantine) (shard : List IpAddr) (now : Instant) : Quarantine :=
  { q with table := q.table.retain fun ip expiry => decide (ip ∉ shard) || decide (now < expiry) }

theorem Quarantine.mem_upsert {q : Quarantine} {ip ip' : IpAddr} {newExpiry : Instant} :
    ip' ∈ (q.upsert ip newExpiry).table ↔ ip' = ip ∨ ip' ∈ q.table := AList.mem_insert _

/-- `retain` removes from the table what it collects. -/
theorem Quarantine.mem_retainIn {q : Quarantine} {ip : IpAddr} {shard : List IpAddr}
    {now : Instant} :
    ip ∈ (q.retainIn shard now).table ↔ ip ∈ q.table ∧ ip ∉ q.expiredIn shard now := by
  have hexpired : ip ∈ q.expiredIn shard now ↔
      ∃ expiry, q.table.lookup ip = some expiry ∧ ip ∈ shard ∧ ¬ now < expiry := by
    simp only [expiredIn, List.mem_map, List.mem_filter, Bool.and_eq_true, Bool.not_eq_true',
      decide_eq_true_eq, decide_eq_false_iff_not, ← Option.mem_def, AList.mem_lookup_iff]
    constructor
    · rintro ⟨⟨ip', expiry⟩, ⟨hmem, hshard, hended⟩, rfl⟩
      exact ⟨expiry, hmem, hshard, hended⟩
    · rintro ⟨expiry, hmem, hshard, hended⟩
      exact ⟨⟨ip, expiry⟩, ⟨hmem, hshard, hended⟩, rfl⟩
  simp only [retainIn, Table.mem_retain, Table.mem_iff_lookup (t := q.table), hexpired,
    Bool.or_eq_true, decide_eq_true_eq]
  constructor
  · rintro ⟨expiry, hlookup, hkept⟩
    refine ⟨⟨expiry, hlookup⟩, ?_⟩
    rintro ⟨expiry', hlookup', hshard, hended⟩
    cases hlookup.symm.trans hlookup'
    exact hkept.elim (fun h => h hshard) hended
  · rintro ⟨⟨expiry, hlookup⟩, hkept⟩
    refine ⟨expiry, hlookup, ?_⟩
    by_contra hgone
    obtain ⟨hshard, hended⟩ := not_or.mp hgone
    exact hkept ⟨expiry, hlookup, not_not.mp hshard, hended⟩

/-- Where all addresses are one shard, `retain` collects what `sweep_expired` does. -/
theorem Quarantine.expiredIn_keys {q : Quarantine} {now : Instant} :
    (q.expiredIn q.table.keys now).map SyncJob.unban =
      (q.table.entries.filter fun e => !decide (now < e.2)).map fun e => SyncJob.unban e.1 := by
  rw [expiredIn, List.map_map]
  congr 1
  refine List.filter_congr fun e he => ?_
  have hkey : e.1 ∈ q.table.keys := List.mem_map_of_mem he
  rw [decide_eq_true hkey, Bool.true_and]

/-- Where all addresses are one shard, `retain` leaves what `sweep_expired` does. -/
theorem Quarantine.retainIn_keys {q : Quarantine} {now : Instant} :
    q.retainIn q.table.keys now =
      { q with table := q.table.retain fun _ expiry => now < expiry } := by
  rw [retainIn]
  congr 1
  refine AList.ext (List.filter_congr fun e he => ?_)
  have hkey : e.1 ∈ q.table.keys := List.mem_map_of_mem he
  dsimp only
  rw [decide_eq_false (not_not.mpr hkey), Bool.false_or]

/-- The connection table without the entries of a shard that have timed out. -/
def ConnTrack.retainIn (c : ConnTrack) (shard : List FlowKey) (now : Instant) : ConnTrack :=
  { c with
    table := c.table.retain fun key entry => decide (key ∉ shard) ||
      decide (now.durationSince entry.lastSeen < timeout c.cfg key entry) }

/-! ## The firewall of the host -/

/-- What the host's firewall bans: each address with the time at which its element times out, if it
does. -/
abbrev OsBans := Table IpAddr (Option Instant)

/-- What is left at a time. -/
def OsBans.live (banned : OsBans) (now : Instant) : OsBans :=
  banned.retain fun _ timeout => timeout.all fun timeout => now < timeout

/-- The implementations of `OsFirewallSync`. Whether adding an element of an `nft` set once more sets
its timeout anew depends on the kernel. -/
inductive OsFirewallSync where
  | nftables (renews : Bool)
  | windowsFirewall
deriving DecidableEq, Repr

/-- `sync_ban`: an element for the whole seconds of the duration, and for one at least, or a rule
that stays. -/
def OsFirewallSync.syncBan (sync : OsFirewallSync) (ip : IpAddr) (duration : Duration)
    (now : Instant) (banned : OsBans) : OsBans :=
  match sync with
  | .nftables renews =>
    if ip ∈ banned ∧ renews = false then banned
    else banned.insert ip (some (now + max (duration / 10 ^ 9) 1 * 10 ^ 9))
  | .windowsFirewall => banned.insert ip none

/-- `sync_unban`, which does nothing where the address is not banned. -/
def OsFirewallSync.syncUnban (ip : IpAddr) (banned : OsBans) : OsBans := banned.erase ip

/-- What the sync worker does with a job. -/
def SyncJob.run (job : SyncJob) (sync : OsFirewallSync) (now : Instant) (banned : OsBans) : OsBans :=
  match job with
  | .ban ip duration => sync.syncBan ip duration now banned
  | .unban ip => OsFirewallSync.syncUnban ip banned

/-! ## The steps -/

/-- Where a thread is in an operation on the tables. -/
inductive Phase where
  | idle
  /-- in `ban`, before `contains_key` -/
  | banning (ip : IpAddr) (duration : Duration) (newExpiry : Instant)
  /-- in `ban` with an address that `contains_key` did not find, before `len` -/
  | banningNew (ip : IpAddr) (duration : Duration) (newExpiry : Instant)
  /-- in `ban` past the check, before `entry` -/
  | banAdmitted (ip : IpAddr) (duration : Duration) (newExpiry : Instant)
  /-- in the `retain` of `sweep_expired`, with the addresses removed so far -/
  | sweeping (now : Instant) (expired : List IpAddr)
  /-- before the `enqueue_sync` of these jobs -/
  | enqueueing (jobs : List SyncJob)
  /-- in `lookup_or_admit` with a flow that `get_mut` did not find, before `len` -/
  | lookingUp (pkt : ParsedPacket)
  /-- after `LookupResult::New`, before `record_new` -/
  | newFlow (pkt : ParsedPacket)
deriving DecidableEq, Repr

/-- The tables, the host's firewall with what it bans and its clock, and the threads. -/
structure Workers (ι : Type) where
  quarantine : Quarantine
  conntrack : ConnTrack
  sync : OsFirewallSync
  backend : OsBans
  clock : Instant
  phase : ι → Phase

/-- What a thread does in one step, or that time passes for the host's firewall. -/
inductive Access (ι : Type) where
  | ban (i : ι) (ip : IpAddr) (duration : Duration) (now : Instant)
  | containsKey (i : ι)
  | banLen (i : ι)
  | entry (i : ι)
  | manualUnban (i : ι) (ip : IpAddr)
  | sweep (i : ι) (now : Instant)
  | retain (i : ι) (shard : List IpAddr)
  | retained (i : ι)
  | enqueue (i : ι)
  | enqueued (i : ι)
  | getMut (i : ι) (pkt : ParsedPacket) (now : Instant)
  | flowLen (i : ι)
  | recordNew (i : ι) (now : Instant)
  | notAccepted (i : ι)
  | sweepFlows (shard : List FlowKey) (now : Instant)
  | syncWorker
  | tick (now : Instant)
deriving DecidableEq, Repr

namespace Workers

variable {ι : Type} [DecidableEq ι]

/-- A thread goes on to another place. -/
def goto (s : Workers ι) (i : ι) (p : Phase) : Workers ι :=
  { s with phase := Function.update s.phase i p }

/-- The tables as they are made, and every thread outside of them. -/
def start (cfg : Config) (osSync : Option SyncQueue) (sync : OsFirewallSync) : Workers ι where
  quarantine :=
    match osSync with
    | none => .new cfg.quarantineMaxEntries
    | some tx => .withOsSync cfg.quarantineMaxEntries tx
  conntrack := .new cfg.conntrack
  sync := sync
  backend := ∅
  clock := 0
  phase := fun _ => .idle

/-- The steps. A `ban` whose end is past the last `Instant` panics before it gets to the table. -/
inductive Step : Workers ι → Access ι → Workers ι → Prop
  | ban {s : Workers ι} {i : ι} {ip : IpAddr} {duration : Duration} {now newExpiry : Instant} :
      s.phase i = .idle → now.add duration = .ok newExpiry →
      Step s (.ban i ip duration now) (s.goto i (.banning ip duration newExpiry))
  | containsKey_true {s : Workers ι} {i : ι} {ip : IpAddr} {duration : Duration}
      {newExpiry : Instant} :
      s.phase i = .banning ip duration newExpiry → ip ∈ s.quarantine.table →
      Step s (.containsKey i) (s.goto i (.banAdmitted ip duration newExpiry))
  | containsKey_false {s : Workers ι} {i : ι} {ip : IpAddr} {duration : Duration}
      {newExpiry : Instant} :
      s.phase i = .banning ip duration newExpiry → ip ∉ s.quarantine.table →
      Step s (.containsKey i) (s.goto i (.banningNew ip duration newExpiry))
  | banLen_full {s : Workers ι} {i : ι} {ip : IpAddr} {duration : Duration} {newExpiry : Instant} :
      s.phase i = .banningNew ip duration newExpiry →
      s.quarantine.maxEntries ≤ s.quarantine.table.len →
      Step s (.banLen i)
        ({ s with quarantine :=
            { s.quarantine with
              capacityRejections := s.quarantine.capacityRejections + 1 } }.goto i .idle)
  | banLen_room {s : Workers ι} {i : ι} {ip : IpAddr} {duration : Duration} {newExpiry : Instant} :
      s.phase i = .banningNew ip duration newExpiry →
      s.quarantine.table.len < s.quarantine.maxEntries →
      Step s (.banLen i) (s.goto i (.banAdmitted ip duration newExpiry))
  | entry {s : Workers ι} {i : ι} {ip : IpAddr} {duration : Duration} {newExpiry : Instant} :
      s.phase i = .banAdmitted ip duration newExpiry →
      Step s (.entry i)
        ({ s with quarantine := s.quarantine.upsert ip newExpiry }.goto i
          (.enqueueing [.ban ip duration]))
  | manualUnban_present {s : Workers ι} {i : ι} {ip : IpAddr} :
      s.phase i = .idle → ip ∈ s.quarantine.table →
      Step s (.manualUnban i ip)
        ({ s with quarantine :=
            { s.quarantine with table := s.quarantine.table.erase ip } }.goto i
          (.enqueueing [.unban ip]))
  | manualUnban_absent {s : Workers ι} {i : ι} {ip : IpAddr} :
      s.phase i = .idle → ip ∉ s.quarantine.table → Step s (.manualUnban i ip) s
  | sweep {s : Workers ι} {i : ι} {now : Instant} :
      s.phase i = .idle → Step s (.sweep i now) (s.goto i (.sweeping now []))
  | retain {s : Workers ι} {i : ι} {now : Instant} {expired shard : List IpAddr} :
      s.phase i = .sweeping now expired →
      Step s (.retain i shard)
        ({ s with quarantine := s.quarantine.retainIn shard now }.goto i
          (.sweeping now (expired ++ s.quarantine.expiredIn shard now)))
  | retained {s : Workers ι} {i : ι} {now : Instant} {expired : List IpAddr} :
      s.phase i = .sweeping now expired →
      Step s (.retained i) (s.goto i (.enqueueing (expired.map .unban)))
  | enqueue {s : Workers ι} {i : ι} {job : SyncJob} {jobs : List SyncJob} :
      s.phase i = .enqueueing (job :: jobs) →
      Step s (.enqueue i)
        ({ s with quarantine := s.quarantine.enqueueSync job }.goto i (.enqueueing jobs))
  | enqueued {s : Workers ι} {i : ι} :
      s.phase i = .enqueueing [] → Step s (.enqueued i) (s.goto i .idle)
  | getMut_some {s : Workers ι} {i : ι} {pkt : ParsedPacket} {now : Instant} :
      s.phase i = .idle → pkt.flowKey ∈ s.conntrack.table →
      Step s (.getMut i pkt now) { s with conntrack := (s.conntrack.lookupOrAdmit pkt now).2 }
  | getMut_none {s : Workers ι} {i : ι} {pkt : ParsedPacket} {now : Instant} :
      s.phase i = .idle → pkt.flowKey ∉ s.conntrack.table →
      Step s (.getMut i pkt now) (s.goto i (.lookingUp pkt))
  | flowLen_full {s : Workers ι} {i : ι} {pkt : ParsedPacket} :
      s.phase i = .lookingUp pkt → s.conntrack.cfg.maxEntries ≤ s.conntrack.table.len →
      Step s (.flowLen i) (s.goto i .idle)
  | flowLen_room {s : Workers ι} {i : ι} {pkt : ParsedPacket} :
      s.phase i = .lookingUp pkt → s.conntrack.table.len < s.conntrack.cfg.maxEntries →
      Step s (.flowLen i) (s.goto i (.newFlow pkt))
  | recordNew {s : Workers ι} {i : ι} {pkt : ParsedPacket} {now : Instant} :
      s.phase i = .newFlow pkt →
      Step s (.recordNew i now)
        ({ s with conntrack := s.conntrack.recordNew pkt now }.goto i .idle)
  | notAccepted {s : Workers ι} {i : ι} {pkt : ParsedPacket} :
      s.phase i = .newFlow pkt → Step s (.notAccepted i) (s.goto i .idle)
  | sweepFlows {s : Workers ι} {shard : List FlowKey} {now : Instant} :
      Step s (.sweepFlows shard now)
        { s with conntrack := s.conntrack.retainIn shard now }
  | syncWorker {s : Workers ι} {maxCapacity : Nat} {job : SyncJob} {jobs : List SyncJob} :
      s.quarantine.osSync = some ⟨maxCapacity, job :: jobs⟩ →
      Step s .syncWorker
        { s with
          quarantine := { s.quarantine with osSync := some ⟨maxCapacity, jobs⟩ }
          backend := job.run s.sync s.clock s.backend }
  | tick {s : Workers ι} {now : Instant} : s.clock ≤ now →
      Step s (.tick now) { s with backend := s.backend.live now, clock := now }

@[simp] theorem quarantine_goto {s : Workers ι} {i : ι} {p : Phase} :
    (s.goto i p).quarantine = s.quarantine := rfl

@[simp] theorem conntrack_goto {s : Workers ι} {i : ι} {p : Phase} :
    (s.goto i p).conntrack = s.conntrack := rfl

@[simp] theorem sync_goto {s : Workers ι} {i : ι} {p : Phase} :
    (s.goto i p).sync = s.sync := rfl

@[simp] theorem backend_goto {s : Workers ι} {i : ι} {p : Phase} :
    (s.goto i p).backend = s.backend := rfl

@[simp] theorem clock_goto {s : Workers ι} {i : ι} {p : Phase} :
    (s.goto i p).clock = s.clock := rfl

@[simp] theorem phase_goto_self {s : Workers ι} {i : ι} {p : Phase} :
    (s.goto i p).phase i = p := Function.update_self ..

theorem phase_goto_of_ne {s : Workers ι} {i j : ι} {p : Phase} (h : j ≠ i) :
    (s.goto i p).phase j = s.phase j := Function.update_of_ne h ..

@[simp] theorem goto_goto {s : Workers ι} {i : ι} {p p' : Phase} :
    (s.goto i p).goto i p' = s.goto i p' := by
  simp only [goto, Function.update_idem]

@[simp] theorem goto_mk_goto {s : Workers ι} {i : ι} {p p' : Phase} {q : Quarantine}
    {c : ConnTrack} {sync : OsFirewallSync} {banned : OsBans} {clock : Instant} :
    (Workers.mk q c sync banned clock (s.goto i p).phase).goto i p' =
      (Workers.mk q c sync banned clock s.phase).goto i p' := by
  simp only [goto, Function.update_idem]

theorem goto_of_phase {s : Workers ι} {i : ι} {p : Phase} (h : s.phase i = p) : s.goto i p = s := by
  subst h
  simp only [goto, Function.update_eq_self]

/-! ## A thread that is not interrupted -/

section
variable {s : Workers ι} {i : ι} {ip : IpAddr} {q : Quarantine}

/-- A run of the steps. -/
abbrev Runs (s : Workers ι) (as : List (Access ι)) (t : Workers ι) : Prop :=
  Run Step (fun _ _ => True) s as t

/-- A thread queues its jobs one by one. -/
theorem runs_enqueue (jobs : List SyncJob) (h : s.phase i = .idle) :
    Runs (s.goto i (.enqueueing jobs)) (jobs.map (fun _ => .enqueue i) ++ [.enqueued i])
      { s with quarantine := jobs.foldl Quarantine.enqueueSync s.quarantine } := by
  induction jobs generalizing s with
  | nil =>
    have hst : Step (s.goto i (.enqueueing [])) (.enqueued i) s := by
      have hdone := Step.enqueued (s := s.goto i (.enqueueing [])) (i := i) phase_goto_self
      rwa [goto_goto, goto_of_phase h] at hdone
    exact Run.nil.snoc trivial hst
  | cons job jobs ih =>
    have hst : Step (s.goto i (.enqueueing (job :: jobs))) (.enqueue i)
        (({ s with quarantine := s.quarantine.enqueueSync job } : Workers ι).goto i
          (.enqueueing jobs)) := by
      simpa using Step.enqueue (s := s.goto i (.enqueueing (job :: jobs))) (i := i) phase_goto_self
    exact (Run.nil.snoc trivial hst).append (ih h)

/-- A thread that is past the check of `ban` updates the entry and queues the job. -/
theorem runs_entry (ip : IpAddr) (duration : Duration) (newExpiry : Instant)
    (h : s.phase i = .idle) :
    ∃ as, Runs (s.goto i (.banAdmitted ip duration newExpiry)) as
      { s with quarantine := (s.quarantine.upsert ip newExpiry).enqueueSync (.ban ip duration) } := by
  have hentry : Step (s.goto i (.banAdmitted ip duration newExpiry)) (.entry i)
      (({ s with quarantine := s.quarantine.upsert ip newExpiry } : Workers ι).goto i
        (.enqueueing [.ban ip duration])) := by
    simpa using Step.entry (s := s.goto i (.banAdmitted ip duration newExpiry)) (i := i)
      phase_goto_self
  have hqueue := runs_enqueue (s := { s with quarantine := s.quarantine.upsert ip newExpiry })
    [.ban ip duration] h
  exact ⟨_, (Run.nil.snoc trivial hentry).append hqueue⟩

/-- `contains_key` on an address that is not in the table. -/
theorem step_containsKey {duration : Duration} {newExpiry : Instant}
    (hmem : ip ∉ s.quarantine.table) :
    Step (s.goto i (.banning ip duration newExpiry)) (.containsKey i)
      (s.goto i (.banningNew ip duration newExpiry)) := by
  simpa using Step.containsKey_false (s := s.goto i (.banning ip duration newExpiry)) (i := i)
    phase_goto_self hmem

/-- The check of `ban` while there is room. -/
theorem step_banLen {duration : Duration} {newExpiry : Instant}
    (hroom : s.quarantine.table.len < s.quarantine.maxEntries) :
    Step (s.goto i (.banningNew ip duration newExpiry)) (.banLen i)
      (s.goto i (.banAdmitted ip duration newExpiry)) := by
  simpa using Step.banLen_room (s := s.goto i (.banningNew ip duration newExpiry)) (i := i)
    phase_goto_self hroom

/-- A thread that bans an address that is not in the table passes the check while there is room. -/
theorem runs_check {duration : Duration} {now newExpiry : Instant} (h : s.phase i = .idle)
    (hadd : now.add duration = .ok newExpiry) (hmem : ip ∉ s.quarantine.table)
    (hroom : s.quarantine.table.len < s.quarantine.maxEntries) :
    Runs s [.ban i ip duration now, .containsKey i, .banLen i]
      (s.goto i (.banAdmitted ip duration newExpiry)) := by
  have hstart : Runs s [.ban i ip duration now] (s.goto i (.banning ip duration newExpiry)) :=
    Run.nil.snoc trivial (.ban h hadd)
  exact (hstart.snoc trivial (step_containsKey hmem)).snoc trivial (step_banLen hroom)

/-- The steps of one thread are the `ban` of the ban list. -/
theorem runs_ban {duration : Duration} {now : Instant} {recorded : Bool} (h : s.phase i = .idle)
    (hban : s.quarantine.ban ip duration now = .ok (recorded, q)) :
    ∃ as, Runs s as { s with quarantine := q } := by
  rw [Quarantine.ban] at hban
  cases hadd : now.add duration with
  | error p =>
    rw [hadd] at hban
    cases hban
  | ok newExpiry =>
    have hstart : Runs s [.ban i ip duration now] (s.goto i (.banning ip duration newExpiry)) :=
      Run.nil.snoc trivial (.ban h hadd)
    obtain ⟨as, hentry⟩ := runs_entry ip duration newExpiry h
    simp only [hadd, bind, Except.bind] at hban
    cases hlookup : s.quarantine.table.lookup ip with
    | some expiry =>
      have hkey : Step (s.goto i (.banning ip duration newExpiry)) (.containsKey i)
          (s.goto i (.banAdmitted ip duration newExpiry)) := by
        simpa using Step.containsKey_true (s := s.goto i (.banning ip duration newExpiry)) (i := i)
          phase_goto_self (Table.mem_iff_lookup.mpr ⟨expiry, hlookup⟩)
      rw [hlookup] at hban
      cases hban
      simp only [Quarantine.upsert, hlookup] at hentry
      exact ⟨_, (hstart.snoc trivial hkey).append hentry⟩
    | none =>
      have hmem : ip ∉ s.quarantine.table := AList.lookup_eq_none.mp hlookup
      rw [hlookup] at hban
      dsimp only at hban
      split at hban
      · next hfull =>
        cases hban
        have hlen := Step.banLen_full (s := s.goto i (.banningNew ip duration newExpiry)) (i := i)
          phase_goto_self hfull
        simp only [goto_mk_goto, quarantine_goto, conntrack_goto, sync_goto, backend_goto,
          clock_goto, goto_of_phase,
          h] at hlen
        exact ⟨_, (hstart.snoc trivial (step_containsKey hmem)).snoc trivial hlen⟩
      · next hroom =>
        cases hban
        simp only [Quarantine.upsert, hlookup] at hentry
        exact ⟨_, (runs_check h hadd hmem (Nat.not_le.mp hroom)).append hentry⟩

/-- The steps of one thread are the `manual_unban` of the ban list. -/
theorem runs_manualUnban (h : s.phase i = .idle) :
    ∃ as, Runs s as { s with quarantine := (s.quarantine.manualUnban ip).2 } := by
  rw [Quarantine.manualUnban]
  split
  · next hfound =>
    have hunban : Runs s [.manualUnban i ip] _ :=
      Run.nil.snoc trivial (.manualUnban_present h (AList.lookup_isSome.mp hfound))
    exact ⟨_, hunban.append (runs_enqueue [.unban ip] h)⟩
  · exact ⟨[], .nil⟩

/-- The steps of one thread are the `sweep_expired` of the ban list. -/
theorem runs_sweepExpired (now : Instant) (h : s.phase i = .idle) :
    ∃ as, Runs s as { s with quarantine := s.quarantine.sweepExpired now } := by
  have hsweep : Runs s [.sweep i now] (s.goto i (.sweeping now [])) :=
    Run.nil.snoc trivial (.sweep h)
  have hshard : Step (s.goto i (.sweeping now [])) (.retain i s.quarantine.table.keys) _ :=
    .retain phase_goto_self
  have hdone := hsweep.snoc trivial hshard
  have hretained := hdone.snoc trivial (.retained phase_goto_self)
  simp only [goto_mk_goto, goto_goto, quarantine_goto, conntrack_goto, sync_goto, backend_goto,
    clock_goto, List.nil_append, Quarantine.expiredIn_keys, Quarantine.retainIn_keys] at hretained
  exact ⟨_, hretained.append (runs_enqueue _ h)⟩

/-- The steps of one thread with a new flow that is accepted are `lookup_or_admit` and
`record_new`. -/
theorem runs_recordNew {pkt : ParsedPacket} {c : ConnTrack} {now later : Instant}
    (h : s.phase i = .idle) (hnew : s.conntrack.lookupOrAdmit pkt now = (.new, c)) :
    ∃ as, Runs s as { s with conntrack := c.recordNew pkt later } := by
  have hmem : pkt.flowKey ∉ s.conntrack.table := by
    intro hmem
    rw [ConnTrack.lookupOrAdmit_of_mem hmem] at hnew
    cases hnew
  rw [ConnTrack.lookupOrAdmit_of_not_mem hmem] at hnew
  split at hnew
  · cases hnew
  · next hroom =>
    cases hnew
    have hlookup : Runs s [.getMut i pkt now] (s.goto i (.lookingUp pkt)) :=
      Run.nil.snoc trivial (.getMut_none h hmem)
    have hlen := hlookup.snoc trivial (.flowLen_room phase_goto_self (Nat.not_le.mp hroom))
    have hrecord := hlen.snoc (a := .recordNew i later) trivial (.recordNew phase_goto_self)
    simp only [goto_mk_goto, goto_goto, quarantine_goto, conntrack_goto, sync_goto, backend_goto,
      clock_goto, goto_of_phase, h] at hrecord
    exact ⟨_, hrecord⟩

end

end Workers

/-- A host of 10.0.0.0/24, for runs on fixed addresses. -/
def hostIp (host : UInt8) : IpAddr := .v4 (Ipv4Addr.new 10 0 0 host)

end ActiveDefense.Firewall
