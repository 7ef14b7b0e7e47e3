import ActiveDefense.Lib.Table
import ActiveDefense.Rust.Net
import ActiveDefense.Rust.Time

/-!
# The ban list

Addresses with the time their ban ends. A ban can be pushed to the firewall of the host as well: a
job for that goes into a bounded queue, and is dropped when the queue is full.
-/

namespace ActiveDefense.Firewall

inductive SyncJob where
  | ban (ip : IpAddr) (duration : Duration)
  | unban (ip : IpAddr)
deriving DecidableEq, Repr

/-- The queue of the sync worker, while the worker runs. -/
structure SyncQueue where
  maxCapacity : Nat
  jobs : List SyncJob
deriving DecidableEq, Repr

structure Quarantine where
  table : Table IpAddr Instant
  maxEntries : Nat
  bansTotal : UInt64
  capacityRejections : UInt64
  syncDropped : UInt64
  osSync : Option SyncQueue

namespace Quarantine

/-- `Quarantine::new`. -/
def new (maxEntries : Nat) : Quarantine := ⟨∅, maxEntries, 0, 0, 0, none⟩

/-- `Quarantine::with_os_sync`. -/
def withOsSync (maxEntries : Nat) (osSync : SyncQueue) : Quarantine :=
  ⟨∅, maxEntries, 0, 0, 0, some osSync⟩

/-- `enqueue_sync`. -/
def enqueueSync (q : Quarantine) (job : SyncJob) : Quarantine :=
  match q.osSync with
  | none => q
  | some tx =>
    if tx.maxCapacity ≤ tx.jobs.length then { q with syncDropped := q.syncDropped + 1 }
    else { q with osSync := some { tx with jobs := tx.jobs ++ [job] } }

/-- `ban`: whether the ban was recorded. A ban of an address in the table never ends earlier than
before. -/
def ban (q : Quarantine) (ip : IpAddr) (duration : Duration) (now : Instant) :
    Except Panic (Bool × Quarantine) := do
  let newExpiry ← now.add duration
  match q.table.lookup ip with
  | some expiry =>
    let q := { q with
      table := q.table.insert ip (if expiry < newExpiry then newExpiry else expiry)
      bansTotal := q.bansTotal + 1 }
    .ok (true, q.enqueueSync (.ban ip duration))
  | none =>
    if q.maxEntries ≤ q.table.len then
      .ok (false, { q with capacityRejections := q.capacityRejections + 1 })
    else
      let q := { q with table := q.table.insert ip newExpiry, bansTotal := q.bansTotal + 1 }
      .ok (true, q.enqueueSync (.ban ip duration))

/-- `is_active`. -/
def isActive (q : Quarantine) (ip : IpAddr) (now : Instant) : Bool :=
  match q.table.lookup ip with
  | some expiry => now < expiry
  | none => false

/-- `manual_unban`: whether the address was in the table. -/
def manualUnban (q : Quarantine) (ip : IpAddr) : Bool × Quarantine :=
  if (q.table.lookup ip).isSome then
    (true, { q with table := q.table.erase ip }.enqueueSync (.unban ip))
  else (false, q)

/-- `sweep_expired`. -/
def sweepExpired (q : Quarantine) (now : Instant) : Quarantine :=
  let expired := q.table.entries.filter fun e => !decide (now < e.2)
  (expired.map fun e => SyncJob.unban e.1).foldl enqueueSync
    { q with table := q.table.retain fun _ expiry => now < expiry }

/-! ## What the operations do to the table -/

variable {q q' : Quarantine} {ip ip' : IpAddr} {now : Instant}

@[simp] theorem table_enqueueSync {job : SyncJob} : (q.enqueueSync job).table = q.table := by
  rw [enqueueSync]
  split
  · rfl
  · split <;> rfl

@[simp] theorem maxEntries_enqueueSync {job : SyncJob} :
    (q.enqueueSync job).maxEntries = q.maxEntries := by
  rw [enqueueSync]
  split
  · rfl
  · split <;> rfl

/-- Queueing jobs leaves the table alone. -/
theorem table_foldl_enqueueSync {jobs : List SyncJob} :
    (jobs.foldl enqueueSync q).table = q.table := by
  induction jobs generalizing q with
  | nil => rfl
  | cons job jobs ih => rw [List.foldl_cons, ih, table_enqueueSync]

/-- A ban that is recorded sets an expiry for its address: no earlier than its own, no earlier than
the one in force, and one of the two. -/
theorem table_ban {duration : Duration} (h : q.ban ip duration now = .ok (true, q')) :
    ∃ expiry, q'.table = q.table.insert ip expiry ∧ now + duration ≤ expiry ∧
      (expiry = now + duration ∨ q.table.lookup ip = some expiry) ∧
      ∀ old, q.table.lookup ip = some old → old ≤ expiry := by
  rw [ban, Instant.add] at h
  split at h
  · simp only [bind, Except.bind] at h
    split at h
    · next old hold =>
      cases h
      rw [table_enqueueSync]
      by_cases hlt : old < now + duration
      · refine ⟨now + duration, by simp only [if_pos hlt], Nat.le_refl _, .inl rfl, ?_⟩
        intro old' hold'
        cases hold.symm.trans hold'
        exact Nat.le_of_lt hlt
      · refine ⟨old, by simp only [if_neg hlt], Nat.not_lt.mp hlt, .inr hold, ?_⟩
        intro old' hold'
        cases hold.symm.trans hold'
        exact Nat.le_refl _
    · split at h
      · cases h
      · next hold _ =>
        cases h
        rw [table_enqueueSync]
        refine ⟨_, rfl, Nat.le_refl _, .inl rfl, ?_⟩
        intro old' hold'
        cases hold.symm.trans hold'
  · cases h

/-- A ban that is refused leaves the table alone. -/
theorem table_ban_refused {duration : Duration} (h : q.ban ip duration now = .ok (false, q')) :
    q'.table = q.table := by
  rw [ban, Instant.add] at h
  split at h
  · simp only [bind, Except.bind] at h
    split at h
    · cases h
    · split at h <;> cases h
      rfl
  · cases h

/-- After an unban the address is not in the table, and the others are as before. -/
theorem lookup_manualUnban :
    (q.manualUnban ip).2.table.lookup ip' = if ip' = ip then none else q.table.lookup ip' := by
  rw [manualUnban]
  split
  · rw [table_enqueueSync]
    split
    · next heq => rw [heq, AList.lookup_erase]
    · next hne => exact AList.lookup_erase_ne hne
  · next habsent =>
    split
    · next heq =>
      rw [heq]
      simpa using habsent
    · rfl

/-- A sweep keeps the entries whose expiry is to come. -/
theorem lookup_sweepExpired {expiry : Instant} :
    (q.sweepExpired now).table.lookup ip = some expiry ↔
      q.table.lookup ip = some expiry ∧ now < expiry := by
  rw [sweepExpired, table_foldl_enqueueSync, Table.lookup_retain, decide_eq_true_iff]

end Quarantine

end ActiveDefense.Firewall
