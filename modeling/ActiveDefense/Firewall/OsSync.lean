import ActiveDefense.Firewall.Workers

/-!
# The ban list and the firewall of the host

Every change of the ban list queues a command for the firewall of the host, in a step of its own.
What the host bans once all commands have run is decided by the command that was queued last, not
by the change that was made last; and an element of an `nft` set times out by itself, while the
entry of the ban list waits for the next sweep. `backend_agrees` shows that the two agree in every
run in which a command that is queued agrees with the ban list, or another thread still has one to
queue that does, and in which no element times out whose address is in the ban list with no command
for it to come. `not_backend_agrees` is a run of a ban and an unban that misses the one condition,
`not_backend_agrees_of_timeout` one of a single ban that misses the other.
-/

namespace ActiveDefense.Firewall

/-- The address of a command. -/
def SyncJob.ip : SyncJob → IpAddr
  | .ban ip _ | .unban ip => ip

/-- The command says of its address what the ban list does. -/
def Quarantine.AgreesWith (q : Quarantine) : SyncJob → Prop
  | .ban ip _ => ip ∈ q.table
  | .unban ip => ip ∉ q.table

instance (q : Quarantine) (job : SyncJob) : Decidable (q.AgreesWith job) :=
  match job with
  | .ban ip _ => inferInstanceAs (Decidable (ip ∈ q.table))
  | .unban ip => inferInstanceAs (Decidable (ip ∉ q.table))

/-- The commands that a thread has still to queue for changes that it has made. -/
def Phase.pending : Phase → List SyncJob
  | .sweeping _ expired => expired.map .unban
  | .enqueueing jobs => jobs
  | _ => []

/-- The commands in the queue. -/
def Quarantine.queued (q : Quarantine) : List SyncJob :=
  match q.osSync with
  | some tx => tx.jobs
  | none => []

/-- What the host bans after some commands. -/
def runJobs (sync : OsFirewallSync) (now : Instant) (jobs : List SyncJob) (banned : OsBans) :
    OsBans :=
  jobs.foldl (fun banned job => job.run sync now banned) banned

/-! ## What commands do to the addresses that are banned -/

section
variable {sync sync' : OsFirewallSync} {now now' : Instant} {job : SyncJob} {jobs : List SyncJob}
  {banned banned' : OsBans} {ip : IpAddr}

theorem OsFirewallSync.mem_syncBan {ip' : IpAddr} {duration : Duration} :
    ip' ∈ sync.syncBan ip duration now banned ↔ ip' = ip ∨ ip' ∈ banned := by
  cases sync with
  | windowsFirewall => exact AList.mem_insert _
  | nftables renews =>
    rw [syncBan]
    split
    · next hthere =>
      constructor
      · exact .inr
      · rintro (rfl | hmem)
        · exact hthere.1
        · exact hmem
    · exact AList.mem_insert _

/-- A command has no effect on the other addresses. -/
theorem SyncJob.mem_run_of_ne (h : job.ip ≠ ip) : ip ∈ job.run sync now banned ↔ ip ∈ banned := by
  cases job with
  | ban ip' duration => exact OsFirewallSync.mem_syncBan.trans (or_iff_right (Ne.symm h))
  | unban ip' => exact AList.mem_erase.trans (and_iff_right (Ne.symm h))

/-- A command that agrees with the ban list makes its address agree. -/
theorem SyncJob.mem_run_of_agrees {q : Quarantine} (h : q.AgreesWith job) :
    job.ip ∈ job.run sync now banned ↔ job.ip ∈ q.table := by
  cases job with
  | ban ip duration => exact iff_of_true (OsFirewallSync.mem_syncBan.mpr (.inl rfl)) h
  | unban ip => exact iff_of_false (fun hmem => (AList.mem_erase.mp hmem).1 rfl) h

/-- Whether a command bans its own address does not depend on where and when it runs and on what is
there. -/
theorem SyncJob.mem_run_self :
    job.ip ∈ job.run sync now banned ↔ job.ip ∈ job.run sync' now' banned' := by
  cases job with
  | ban ip duration =>
    exact iff_of_true (OsFirewallSync.mem_syncBan.mpr (.inl rfl))
      (OsFirewallSync.mem_syncBan.mpr (.inl rfl))
  | unban ip =>
    exact iff_of_false (fun hmem => (AList.mem_erase.mp hmem).1 rfl)
      fun hmem => (AList.mem_erase.mp hmem).1 rfl

/-- What commands make of an address depends on whether it was banned, and on that only if none of
them is for it. -/
theorem mem_runJobs_congr (h : (∃ job ∈ jobs, job.ip = ip) ∨ (ip ∈ banned ↔ ip ∈ banned')) :
    ip ∈ runJobs sync now jobs banned ↔ ip ∈ runJobs sync' now' jobs banned' := by
  induction jobs generalizing banned banned' with
  | nil =>
    rcases h with ⟨job, hjob, -⟩ | h
    · cases hjob
    · exact h
  | cons job jobs ih =>
    rw [runJobs, runJobs, List.foldl_cons, List.foldl_cons]
    refine ih ?_
    by_cases hip : job.ip = ip
    · subst hip
      exact .inr SyncJob.mem_run_self
    · rcases h with ⟨job', hjob', hip'⟩ | h
      · rcases List.mem_cons.mp hjob' with rfl | hjob'
        · exact absurd hip' hip
        · exact .inl ⟨job', hjob', hip'⟩
      · exact .inr ((SyncJob.mem_run_of_ne hip).trans (h.trans (SyncJob.mem_run_of_ne hip).symm))

/-- Commands leave the addresses that they are not for. -/
theorem mem_runJobs_of_forall_ne (h : ∀ job ∈ jobs, job.ip ≠ ip) :
    ip ∈ runJobs sync now jobs banned ↔ ip ∈ banned := by
  induction jobs generalizing banned with
  | nil => rfl
  | cons job jobs ih =>
    rw [runJobs, List.foldl_cons]
    exact (ih fun job' hjob' => h job' (.tail _ hjob')).trans
      (SyncJob.mem_run_of_ne (h job (.head _)))

theorem runJobs_concat :
    runJobs sync now (jobs ++ [job]) banned = job.run sync now (runJobs sync now jobs banned) := by
  simp [runJobs]

end

namespace Workers

section
variable {ι : Type} [DecidableEq ι]

/-- What the host bans once the commands in the queue have run. -/
def drained (s : Workers ι) : OsBans := runJobs s.sync s.clock s.quarantine.queued s.backend

/-- No command is dropped because the queue is full. -/
def QueueHasRoom (s : Workers ι) : Access ι → Prop
  | .enqueue _ => s.quarantine.osSync.all fun tx => tx.jobs.length < tx.maxCapacity
  | _ => True

/-- A thread has a command for the address to queue that agrees with the ban list. -/
def HasWord (s : Workers ι) (ip : IpAddr) : Prop :=
  ∃ i, ∃ job ∈ (s.phase i).pending, job.ip = ip ∧ s.quarantine.AgreesWith job

/-- A command that is queued agrees with the ban list, or a thread has another one for the same
address to queue that does. -/
def LastWordAgrees (s : Workers ι) : Access ι → Prop
  | .enqueue i => ∀ job jobs, s.phase i = .enqueueing (job :: jobs) →
      s.quarantine.AgreesWith job ∨ (s.goto i (.enqueueing jobs)).HasWord job.ip
  | _ => True

/-- An element that times out is of an address that is no longer in the ban list, or a command for
the address is in the queue, or a thread has one to queue that agrees with the ban list. -/
def TimeoutsAgree (s : Workers ι) : Access ι → Prop
  | .tick now => ∀ ip ∈ s.backend, ip ∉ s.backend.live now →
      ip ∉ s.quarantine.table ∨ (∃ job ∈ s.quarantine.queued, job.ip = ip) ∨ s.HasWord ip
  | _ => True

/-- No thread is in an operation, and no command is in the queue. -/
def Quiet (s : Workers ι) : Prop := (∀ i, s.phase i = .idle) ∧ s.quarantine.queued = []

/-- What holds along a run that meets the condition: for every address, the commands in the queue
lead to what the ban list says, or some thread has still to queue a command that does. -/
structure Settled (s : Workers ι) : Prop where
  syncs : s.quarantine.osSync.isSome = true
  agrees : ∀ ip, (ip ∈ s.drained ↔ ip ∈ s.quarantine.table) ∨ s.HasWord ip

variable {s t : Workers ι} {a : Access ι}

omit [DecidableEq ι] in
/-- A step that queues nothing: commands stay to be queued, and an address whose membership changes
gets a command that agrees. -/
theorem Settled.of_pending (hs : s.Settled) (hsync : t.quarantine.osSync = s.quarantine.osSync)
    (hbackend : t.backend = s.backend)
    (hpending : ∀ i, ∀ job ∈ (s.phase i).pending, job ∈ (t.phase i).pending)
    (hchanged : ∀ ip, (ip ∈ t.quarantine.table ↔ ip ∈ s.quarantine.table) ∨ t.HasWord ip) :
    t.Settled where
  syncs := hsync ▸ hs.syncs
  agrees ip := by
    have hdrained : ip ∈ t.drained ↔ ip ∈ s.drained := by
      rw [drained, drained, Quarantine.queued, Quarantine.queued, hsync, hbackend]
      exact mem_runJobs_congr (.inr .rfl)
    obtain hsame | hjob := hchanged ip
    · refine (hs.agrees ip).imp (fun h => hdrained.trans (h.trans hsame.symm)) ?_
      rintro ⟨i, job, hjob, rfl, hagrees⟩
      refine ⟨i, job, hpending i job hjob, rfl, ?_⟩
      cases job with
      | ban => exact hsame.mpr hagrees
      | unban => exact fun h => hagrees (hsame.mp h)
    · exact .inr hjob

omit [DecidableEq ι] in
/-- A step that changes no membership and queues nothing. -/
theorem Settled.of_same (hs : s.Settled) (hsync : t.quarantine.osSync = s.quarantine.osSync)
    (hbackend : t.backend = s.backend) (htable : t.quarantine.table = s.quarantine.table)
    (hpending : ∀ i, ∀ job ∈ (s.phase i).pending, job ∈ (t.phase i).pending) : t.Settled :=
  hs.of_pending hsync hbackend hpending fun ip => .inl (by rw [htable])

/-- A thread queues a command that agrees with the ban list. -/
theorem lastWordAgrees_of_agrees {i : ι} {job : SyncJob} {jobs : List SyncJob}
    (hphase : s.phase i = .enqueueing (job :: jobs)) (h : s.quarantine.AgreesWith job) :
    s.LastWordAgrees (.enqueue i) := by
  intro job' jobs' hphase'
  cases hphase.symm.trans hphase'
  exact .inl h

omit [DecidableEq ι] in
/-- Time passes and no element times out. -/
theorem timeoutsAgree_of_live {now : Instant}
    (h : ∀ e ∈ s.backend.entries, (e.2.all fun timeout => decide (now < timeout)) = true) :
    s.TimeoutsAgree (.tick now) := by
  intro ip hip hends
  obtain ⟨timeout, htimeout⟩ := Table.mem_iff_lookup.mp hip
  exact absurd (Table.mem_retain.mpr ⟨timeout, htimeout, h _ (AList.mem_lookup_iff.mp htimeout)⟩)
    hends

/-- A thread that goes on with at least the commands it had to queue. -/
theorem pending_goto {i : ι} {p : Phase} (h : ∀ job ∈ (s.phase i).pending, job ∈ p.pending)
    (j : ι) : ∀ job ∈ (s.phase j).pending, job ∈ ((s.goto i p).phase j).pending := by
  by_cases hij : j = i
  · subst hij
    rw [phase_goto_self]
    exact h
  · rw [phase_goto_of_ne hij]
    exact fun _ hjob => hjob

/-- A thread that had no command to queue goes on. -/
theorem pending_goto_of_nil {i : ι} {p : Phase} (h : (s.phase i).pending = []) (j : ι) :
    ∀ job ∈ (s.phase j).pending, job ∈ ((s.goto i p).phase j).pending :=
  pending_goto (by simp [h]) j

/-- Queueing a command that fits. -/
theorem queued_enqueueSync {q : Quarantine} {job : SyncJob}
    (hsync : q.osSync.isSome = true)
    (hroom : q.osSync.all (fun tx => tx.jobs.length < tx.maxCapacity) = true) :
    (q.enqueueSync job).queued = q.queued ++ [job] ∧
      (q.enqueueSync job).osSync.isSome = true := by
  obtain ⟨tx, htx⟩ := Option.isSome_iff_exists.mp hsync
  have hlt : tx.jobs.length < tx.maxCapacity := by
    simpa [htx] using hroom
  simp [Quarantine.enqueueSync, Quarantine.queued, htx, Nat.not_le.mpr hlt]

omit [DecidableEq ι] in
theorem agreesWith_enqueueSync {q : Quarantine} {job job' : SyncJob} :
    (q.enqueueSync job).AgreesWith job' ↔ q.AgreesWith job' := by
  cases job' <;> simp only [Quarantine.AgreesWith, Quarantine.table_enqueueSync]

/-- A command is queued. -/
theorem Settled.enqueue (hs : s.Settled) {i : ι} {job : SyncJob} {jobs : List SyncJob}
    (hphase : s.phase i = .enqueueing (job :: jobs)) (hroom : s.QueueHasRoom (.enqueue i))
    (hlast : s.LastWordAgrees (.enqueue i)) :
    (({ s with quarantine := s.quarantine.enqueueSync job } : Workers ι).goto i
      (.enqueueing jobs)).Settled := by
  obtain ⟨hqueued, hsync⟩ := queued_enqueueSync (q := s.quarantine) hs.syncs hroom
  refine ⟨hsync, fun ip => ?_⟩
  simp only [HasWord, drained, quarantine_goto, sync_goto, backend_goto, clock_goto, hqueued,
    runJobs_concat, Quarantine.table_enqueueSync, agreesWith_enqueueSync]
  by_cases hip : job.ip = ip
  · -- the command decides about its address, unless a thread has another one for it
    subst hip
    obtain hagrees | hother := hlast job jobs hphase
    · exact .inl (SyncJob.mem_run_of_agrees hagrees)
    · exact .inr hother
  · obtain hsame | ⟨j, job', hjob', rfl, hagrees⟩ := hs.agrees ip
    · exact .inl ((SyncJob.mem_run_of_ne hip).trans hsame)
    · refine .inr ⟨j, job', ?_, rfl, hagrees⟩
      by_cases hij : j = i
      · subst hij
        rw [hphase, Phase.pending, List.mem_cons] at hjob'
        obtain rfl | hjob' := hjob'
        · exact absurd rfl hip
        · rwa [phase_goto_self]
      · rwa [phase_goto_of_ne hij]

omit [DecidableEq ι] in
/-- Elements time out. -/
theorem Settled.tick (hs : s.Settled) {now : Instant} (htimeouts : s.TimeoutsAgree (.tick now)) :
    ({ s with backend := s.backend.live now, clock := now } : Workers ι).Settled := by
  refine ⟨hs.syncs, fun ip => ?_⟩
  obtain hsame | hword := hs.agrees ip
  · by_cases hends : ip ∈ s.backend ∧ ip ∉ s.backend.live now
    · obtain hgone | hqueued | hword := htimeouts ip hends.1 hends.2
      · by_cases hqueued : ∃ job ∈ s.quarantine.queued, job.ip = ip
        · exact .inl ((mem_runJobs_congr (.inl hqueued)).trans hsame)
        · -- nothing is to come for the address, and it is banned on neither side
          have hne : ∀ job ∈ s.quarantine.queued, job.ip ≠ ip :=
            fun job hjob hip => hqueued ⟨job, hjob, hip⟩
          exact .inl (iff_of_false (fun hmem => hends.2 ((mem_runJobs_of_forall_ne hne).mp hmem))
            hgone)
      · exact .inl ((mem_runJobs_congr (.inl hqueued)).trans hsame)
      · exact .inr hword
    · have hstays : ip ∈ s.backend.live now ↔ ip ∈ s.backend :=
        ⟨Table.mem_of_mem_retain, fun hmem => not_not.mp fun hnot => hends ⟨hmem, hnot⟩⟩
      exact .inl ((mem_runJobs_congr (.inr hstays)).trans hsame)
  · exact .inr hword

/-- The step lemma. -/
theorem Settled.step (hs : s.Settled) (hroom : s.QueueHasRoom a) (hlast : s.LastWordAgrees a)
    (htimeouts : s.TimeoutsAgree a) (hst : Step s a t) : t.Settled := by
  cases hst with
  | ban hphase | containsKey_true hphase | containsKey_false hphase | banLen_full hphase
  | banLen_room hphase | sweep hphase | enqueued hphase | getMut_none hphase | flowLen_full hphase
  | flowLen_room hphase | recordNew hphase | notAccepted hphase =>
    exact hs.of_same rfl rfl rfl (pending_goto_of_nil (by rw [hphase]; rfl))
  | manualUnban_absent => exact hs
  | getMut_some | sweepFlows => exact hs.of_same rfl rfl rfl fun _ _ hjob => hjob
  | @entry i ip duration newExpiry hphase =>
    refine hs.of_pending rfl rfl (pending_goto_of_nil (by rw [hphase]; rfl)) fun ip' => ?_
    by_cases hip : ip' = ip
    · refine .inr ⟨i, .ban ip duration, ?_, hip.symm, Quarantine.mem_upsert.mpr (.inl rfl)⟩
      rw [phase_goto_self]
      exact .head _
    · exact .inl (Quarantine.mem_upsert.trans (or_iff_right hip))
  | @manualUnban_present i ip hphase hmem =>
    refine hs.of_pending rfl rfl (pending_goto_of_nil (by rw [hphase]; rfl)) fun ip' => ?_
    by_cases hip : ip' = ip
    · refine .inr ⟨i, .unban ip, ?_, hip.symm, fun h => (AList.mem_erase.mp h).1 rfl⟩
      rw [phase_goto_self]
      exact .head _
    · exact .inl (AList.mem_erase.trans (and_iff_right hip))
  | @retain i now expired shard hphase =>
    have hmore : ∀ job ∈ (s.phase i).pending,
        job ∈ (Phase.sweeping now (expired ++ s.quarantine.expiredIn shard now)).pending := by
      rw [hphase]
      simp only [Phase.pending, List.map_append]
      exact fun job hjob => List.mem_append_left _ hjob
    refine hs.of_pending rfl rfl (pending_goto hmore) fun ip => ?_
    by_cases hip : ip ∈ s.quarantine.expiredIn shard now
    · refine .inr ⟨i, .unban ip, ?_, rfl, fun h => (Quarantine.mem_retainIn.mp h).2 hip⟩
      rw [phase_goto_self, Phase.pending, List.map_append]
      exact List.mem_append_right _ (List.mem_map_of_mem hip)
    · exact .inl (Quarantine.mem_retainIn.trans (and_iff_left hip))
  | @retained i now expired hphase =>
    have hsame : ∀ job ∈ (s.phase i).pending,
        job ∈ (Phase.enqueueing (expired.map .unban)).pending := by
      rw [hphase]
      exact fun _ hjob => hjob
    exact hs.of_same rfl rfl rfl (pending_goto hsame)
  | enqueue hphase => exact hs.enqueue hphase hroom hlast
  | @syncWorker maxCapacity job jobs hsync =>
    have hdrained : ({ s with
        quarantine := { s.quarantine with osSync := some ⟨maxCapacity, jobs⟩ }
        backend := job.run s.sync s.clock s.backend } : Workers ι).drained = s.drained := by
      rw [drained, drained, Quarantine.queued, Quarantine.queued, hsync]
      rfl
    refine ⟨rfl, fun ip => ?_⟩
    rw [hdrained]
    exact hs.agrees ip
  | tick => exact hs.tick htimeouts

omit [DecidableEq ι] in
/-- At the start nothing is banned and nothing is queued. -/
theorem settled_start {cfg : Config} {maxCapacity : Nat} {sync : OsFirewallSync} :
    (start cfg (some ⟨maxCapacity, []⟩) sync : Workers ι).Settled :=
  ⟨rfl, fun _ => .inl .rfl⟩

omit [DecidableEq ι] in
/-- When all is quiet, the host bans what the ban list does. -/
theorem Settled.agrees_of_quiet (hs : s.Settled) (hquiet : s.Quiet) (ip : IpAddr) :
    ip ∈ s.backend ↔ ip ∈ s.quarantine.table := by
  obtain ⟨hidle, hqueued⟩ := hquiet
  obtain hsame | ⟨i, job, hjob, -⟩ := hs.agrees ip
  · rwa [drained, hqueued] at hsame
  · rw [hidle i] at hjob
    cases hjob

end

end Workers

/-! ## A ban and an unban -/

/-- Two threads and `nft`, with the queue of the sync worker as `spawn` makes it. -/
def syncedWorkers : Workers Bool := .start {} (some ⟨4096, []⟩) (.nftables false)

/-- One of them is past the check of a ban of 10.0.0.1 for ten seconds. -/
def syncedAdmitted : Workers Bool :=
  syncedWorkers.goto true (.banAdmitted (hostIp 1) (10 * 10 ^ 9) (10 * 10 ^ 9))

/-- It has banned 10.0.0.1, and has yet to queue the command. -/
def justBanned : Workers Bool :=
  ({ syncedAdmitted with
      quarantine := syncedAdmitted.quarantine.upsert (hostIp 1) (10 * 10 ^ 9) } : Workers Bool).goto
    true (.enqueueing [.ban (hostIp 1) (10 * 10 ^ 9)])

/-- The other one is past the check of a ban of 10.0.0.2 for a minute. -/
def secondAdmitted : Workers Bool :=
  justBanned.goto false (.banAdmitted (hostIp 2) (60 * 10 ^ 9) (60 * 10 ^ 9))

/-- Both have banned their address, and have yet to queue the commands. -/
def bothJustBanned : Workers Bool :=
  ({ secondAdmitted with
      quarantine := secondAdmitted.quarantine.upsert (hostIp 2) (60 * 10 ^ 9) } : Workers Bool).goto
    false (.enqueueing [.ban (hostIp 2) (60 * 10 ^ 9)])

/-- The steps of a `ban` up to the update of the table. -/
def Access.BeforeEnqueue : Access Bool → Prop
  | .ban .. | .containsKey _ | .banLen _ | .entry _ => True
  | _ => False

theorem run_justBanned {ok : Workers Bool → Access Bool → Prop}
    (hok : ∀ a, a.BeforeEnqueue → ∀ s, ok s a) :
    ∃ as, Run Workers.Step ok syncedWorkers as justBanned := by
  have hcheck : Workers.Runs syncedWorkers _ syncedAdmitted :=
    Workers.runs_check rfl (rfl : Instant.add 0 (10 * 10 ^ 9) = .ok (10 * 10 ^ 9)) (by decide)
      (by decide)
  have hrun : Workers.Runs syncedWorkers _ justBanned := hcheck.snoc trivial (.entry rfl)
  refine ⟨_, hrun.of_forall fun a ha => hok a ?_⟩
  simp only [List.cons_append, List.nil_append, List.mem_cons, List.not_mem_nil, or_false] at ha
  obtain rfl | rfl | rfl | rfl := ha <;> trivial

theorem run_bothJustBanned {ok : Workers Bool → Access Bool → Prop}
    (hok : ∀ a, a.BeforeEnqueue → ∀ s, ok s a) :
    ∃ as, Run Workers.Step ok syncedWorkers as bothJustBanned := by
  obtain ⟨as, hfirst⟩ := run_justBanned hok
  have hcheck : Workers.Runs justBanned _ secondAdmitted :=
    Workers.runs_check rfl (rfl : Instant.add 0 (60 * 10 ^ 9) = .ok (60 * 10 ^ 9)) (by decide)
      (by decide)
  have hrun : Workers.Runs justBanned _ bothJustBanned := hcheck.snoc trivial (.entry rfl)
  refine ⟨_, hfirst.append (hrun.of_forall fun a ha => hok a ?_)⟩
  simp only [List.cons_append, List.nil_append, List.mem_cons, List.not_mem_nil, or_false] at ha
  obtain rfl | rfl | rfl | rfl := ha <;> trivial

open Workers in
/-- In every run in which no command is dropped, every command that is queued agrees with the ban
list or leaves one to be queued that does, and no element times out that the ban list still has with
nothing to come for it: once no thread is in an operation and the queue is empty, the host bans an
address if and only if the ban list does. -/
theorem backend_agrees {ι : Type} [DecidableEq ι] {cfg : Config} {maxCapacity : Nat}
    {sync : OsFirewallSync} {as : List (Access ι)} {s : Workers ι}
    (h : Run Step (fun s a => s.QueueHasRoom a ∧ s.LastWordAgrees a ∧ s.TimeoutsAgree a)
      (start cfg (some ⟨maxCapacity, []⟩) sync) as s) (hquiet : s.Quiet) (ip : IpAddr) :
    ip ∈ s.backend ↔ ip ∈ s.quarantine.table :=
  (h.invariant (I := Settled) settled_start fun _ _ _ hs hok hst =>
    hs.step hok.1 hok.2.1 hok.2.2 hst).agrees_of_quiet hquiet ip

open Workers in
/-- Two threads ban an address each, one of them for ten seconds; after the sweep at their end the
host bans the other one only. -/
theorem backend_agrees_two : ∃ s : Workers Bool,
    (hostIp 1 ∉ s.backend ∧ hostIp 1 ∉ s.quarantine.table) ∧
      hostIp 2 ∈ s.backend ∧ hostIp 2 ∈ s.quarantine.table := by
  obtain ⟨as, hbanned⟩ : ∃ as,
      Run Step (fun s a => s.QueueHasRoom a ∧ s.LastWordAgrees a ∧ s.TimeoutsAgree a)
        syncedWorkers as bothJustBanned := by
    refine run_bothJustBanned fun a ha s => ?_
    cases a <;> first | exact ⟨trivial, trivial, trivial⟩ | cases ha
  have hroom {t : Workers Bool} {i : Bool} {job : SyncJob} {jobs : List SyncJob}
      (hphase : t.phase i = .enqueueing (job :: jobs)) (hroom : t.QueueHasRoom (.enqueue i))
      (hagrees : t.quarantine.AgreesWith job) : t.QueueHasRoom (.enqueue i) ∧
        t.LastWordAgrees (.enqueue i) ∧ t.TimeoutsAgree (.enqueue i) :=
    ⟨hroom, lastWordAgrees_of_agrees hphase hagrees, trivial⟩
  -- the two commands are queued in the other order, and run a second later
  have hone := (hbanned.snoc (hroom rfl (by rfl) (by decide)) (.enqueue (i := false) rfl)).snoc
    (by exact ⟨trivial, trivial, trivial⟩) (.enqueued (i := false) rfl)
  have hboth := (hone.snoc (hroom rfl (by rfl) (by decide)) (.enqueue (i := true) rfl)).snoc
    (by exact ⟨trivial, trivial, trivial⟩) (.enqueued (i := true) rfl)
  have hlater := hboth.snoc (a := .tick (10 ^ 9))
    (by exact ⟨trivial, trivial, timeoutsAgree_of_live (by decide)⟩) (.tick (by decide))
  have hran := (hlater.snoc (by exact ⟨trivial, trivial, trivial⟩) (.syncWorker rfl)).snoc
    (by exact ⟨trivial, trivial, trivial⟩) (.syncWorker rfl)
  -- the sweep comes at the end of the first ban, a second before its element times out
  have hended := hran.snoc (a := .tick (10 * 10 ^ 9))
    (by exact ⟨trivial, trivial, timeoutsAgree_of_live (by decide)⟩) (.tick (by decide))
  have hsweep := (hended.snoc (a := .sweep true (10 * 10 ^ 9))
    (by exact ⟨trivial, trivial, trivial⟩) (.sweep rfl)).snoc
    (a := .retain true [hostIp 1, hostIp 2]) (by exact ⟨trivial, trivial, trivial⟩) (.retain rfl)
  have hswept := (hsweep.snoc (by exact ⟨trivial, trivial, trivial⟩)
    (.retained (i := true) rfl)).snoc (hroom rfl (by rfl) (by decide)) (.enqueue (i := true) rfl)
  have hrun := (hswept.snoc (by exact ⟨trivial, trivial, trivial⟩)
    (.enqueued (i := true) rfl)).snoc (by exact ⟨trivial, trivial, trivial⟩) (.syncWorker rfl)
  have hagrees := backend_agrees hrun ⟨by decide, rfl⟩
  have hgone := (hagrees (hostIp 1)).not.mpr (by decide)
  exact ⟨_, ⟨hgone, by decide⟩, (hagrees (hostIp 2)).mpr (by decide), by decide⟩

open Workers in
/-- The thread that bans 10.0.0.1 queues its command after another one has lifted the ban and queued
the command for that: the host bans an address that is not in the ban list. -/
theorem not_backend_agrees :
    ¬ ∀ (ι : Type) [DecidableEq ι] (cfg : Config) (maxCapacity : Nat) (sync : OsFirewallSync)
      (as : List (Access ι)) (s : Workers ι),
      Run Step QueueHasRoom (start cfg (some ⟨maxCapacity, []⟩) sync) as s →
        s.Quiet → ∀ ip, ip ∈ s.backend ↔ ip ∈ s.quarantine.table := by
  intro h
  obtain ⟨as, hbanned⟩ : ∃ as, Run Step QueueHasRoom syncedWorkers as justBanned := by
    refine run_justBanned fun a ha s => ?_
    cases a <;> trivial
  have hunban : Step justBanned (.manualUnban false (hostIp 1)) _ :=
    .manualUnban_present rfl (by decide)
  have hqueued := ((hbanned.snoc (by trivial) hunban).snoc (by rfl)
    (.enqueue (i := false) rfl)).snoc (by trivial) (.enqueued (i := false) rfl)
  have hboth := (hqueued.snoc (by rfl) (.enqueue (i := true) rfl)).snoc (by trivial)
    (.enqueued (i := true) rfl)
  have hrun := (hboth.snoc (by trivial) (.syncWorker rfl)).snoc (by trivial) (.syncWorker rfl)
  have hagrees := h Bool _ _ _ _ _ hrun ⟨by decide, rfl⟩ (hostIp 1)
  exact absurd (hagrees.mp (by decide)) (by decide)

open Workers in
/-- A single ban: its element times out before the sweep takes the entry out of the ban list. -/
theorem not_backend_agrees_of_timeout :
    ¬ ∀ (ι : Type) [DecidableEq ι] (cfg : Config) (maxCapacity : Nat) (sync : OsFirewallSync)
      (as : List (Access ι)) (s : Workers ι),
      Run Step (fun s a => s.QueueHasRoom a ∧ s.LastWordAgrees a)
        (start cfg (some ⟨maxCapacity, []⟩) sync) as s →
        s.Quiet → ∀ ip, ip ∈ s.backend ↔ ip ∈ s.quarantine.table := by
  intro h
  obtain ⟨as, hbanned⟩ : ∃ as, Run Step (fun s a => s.QueueHasRoom a ∧ s.LastWordAgrees a)
      syncedWorkers as justBanned := by
    refine run_justBanned fun a ha s => ?_
    cases a <;> first | exact ⟨trivial, trivial⟩ | cases ha
  have hqueued := (hbanned.snoc ⟨by rfl, lastWordAgrees_of_agrees rfl (by decide)⟩
    (.enqueue (i := true) rfl)).snoc (by exact ⟨trivial, trivial⟩) (.enqueued (i := true) rfl)
  have hrun := (hqueued.snoc (by exact ⟨trivial, trivial⟩) (.syncWorker rfl)).snoc
    (a := .tick (10 * 10 ^ 9)) (by exact ⟨trivial, trivial⟩) (.tick (by decide))
  have hagrees := h Bool _ _ _ _ _ hrun ⟨by decide, rfl⟩ (hostIp 1)
  exact absurd (hagrees.mpr (by decide)) (by decide)

end ActiveDefense.Firewall
