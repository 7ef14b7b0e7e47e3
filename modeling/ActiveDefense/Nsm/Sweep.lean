import ActiveDefense.Nsm.System
import ActiveDefense.Nsm.Writers

/-!
# A sweep beside blocks and unblocks

`sweep_expired_blocklist` reads the clock, collects the expired keys under the lock, and removes
them by key under a second lock. Between its steps any number of blocks and unblocks can update the
map, each at once under the lock (`MapOp.apply`, with any expiry: a block computes its own before it
takes the lock). A key that was expired when it was collected can have been stored again by the time it is
removed; `swept_only_expired` says that this is all that can go wrong: a sweep that removes no key
stored again since its reading removes only entries that were expired at its reading, and every
source blocked again while it ran stays blocked. `removal_keeps_iff` is the exact condition of one
removal, in any run, and `not_swept_only_expired` a block that a sweep removes.
-/

namespace ActiveDefense.Nsm

/-- How far the sweep is: waiting for its ticker, past `now_ns()`, or past the collection. -/
inductive Sweep where
  | idle
  | reading (now : UInt64)
  | collected (now : UInt64) (keys : List (PrefixKey 32))
deriving DecidableEq, Repr

/-- The reading a running sweep took. -/
def Sweep.reading? : Sweep → Option UInt64
  | .idle => none
  | .reading now => some now
  | .collected now _ => some now

/-- The keys it is about to remove. -/
def Sweep.keys : Sweep → List (PrefixKey 32)
  | .collected _ keys => keys
  | _ => []

/-- A step: an operation takes its lock, or the sweep goes on. -/
inductive SweepLabel where
  | op (o : MapOp)
  | tick (now : UInt64)
  | collect
  | remove
deriving DecidableEq, Repr

/-- The key an operation updates. -/
def MapOp.key (config : AutoBlockConfig) : MapOp → PrefixKey 32
  | .block ip prefixLen _ => config.blockKey ip prefixLen
  | .unblock ip prefixLen => unblockKey ip prefixLen

/-- The entry an operation stores. -/
def MapOp.stored (config : AutoBlockConfig) : MapOp → Option (PrefixKey 32 × UInt64)
  | .block ip prefixLen expiryNs => some (config.blockKey ip prefixLen, expiryNs)
  | .unblock _ _ => none

/-- The map and the sweep, with two records of the run. `reblocked` holds the entries that blocks
stored since the last sweep read the clock, with an expiry after its reading, each until an
operation on its prefix; `swept` holds what the sweeps removed, with their readings. -/
structure SweepState (M : Type) where
  blocklist : M
  sweep : Sweep
  reblocked : List (PrefixKey 32 × UInt64)
  swept : List ((PrefixKey 32 × UInt64) × UInt64)

section
variable {M : Type} [PrefixMap M 32 UInt64]

/-- Before the first sweep. -/
def SweepState.init (blocklist : M) : SweepState M := ⟨blocklist, .idle, [], []⟩

/-- The entries the running sweep must not remove, after an operation has updated the map. -/
def SweepState.reblockedAfter (config : AutoBlockConfig) (s : SweepState M) (o : MapOp) :
    List (PrefixKey 32 × UInt64) :=
  (o.stored config).toList.filter (fun e => s.sweep.reading?.any fun now => now < e.2) ++
    s.reblocked.filter fun e => ¬ e.1.Same (o.key config)

/-- What a removal of `keys` takes out of the map. -/
def removedEntries (m : M) (keys : List (PrefixKey 32)) : List (PrefixKey 32 × UInt64) :=
  (PrefixMap.entries m).filter fun e => e ∉ PrefixMap.entries (removeKeys m keys)

/-- The next state. A failed insert leaves everything as it is, and a sweep that has collected
nothing goes back to its ticker without a second lock. -/
def SweepState.next (config : AutoBlockConfig) (s : SweepState M) :
    SweepLabel → Option (SweepState M)
  | .op o =>
    match o.apply config s.blocklist with
    | none => some s
    | some blocklist => some { s with blocklist, reblocked := s.reblockedAfter config o }
  | .tick now =>
    match s.sweep with
    | .idle => some { s with sweep := .reading now, reblocked := [] }
    | _ => none
  | .collect =>
    match s.sweep with
    | .reading now =>
      let expired := expiredKeys s.blocklist now
      if expired.isEmpty then some { s with sweep := .idle }
      else some { s with sweep := .collected now expired }
    | _ => none
  | .remove =>
    match s.sweep with
    | .collected now expired =>
      some
        { s with
          blocklist := removeKeys s.blocklist expired
          sweep := .idle
          swept := s.swept ++ (removedEntries s.blocklist expired).map fun e => (e, now) }
    | _ => none

/-- One step of the sweep or of an operation beside it. -/
def SweepStep (config : AutoBlockConfig) (s : SweepState M) (l : SweepLabel) (t : SweepState M) :
    Prop :=
  s.next config l = some t

/-- The sweep does not remove a key that was stored again since its reading. -/
def SpareReblocked (s : SweepState M) (l : SweepLabel) : Prop :=
  l = .remove → ∀ e ∈ s.reblocked, ∀ k ∈ s.sweep.keys, ¬ e.1.Same k

instance (s : SweepState M) (l : SweepLabel) : Decidable (SpareReblocked s l) :=
  inferInstanceAs (Decidable (_ → _))

/-! ## What a step can do -/

/-- An operation updates the map or leaves everything; the sweep's steps follow each other. -/
theorem sweepStep_cases {config : AutoBlockConfig} {s t : SweepState M} {l : SweepLabel}
    (h : SweepStep config s l t) :
    (∃ o, l = .op o ∧ o.apply config s.blocklist = none ∧ t = s) ∨
    (∃ o m, l = .op o ∧ o.apply config s.blocklist = some m ∧
      t = { s with blocklist := m, reblocked := s.reblockedAfter config o }) ∨
    (∃ now, l = .tick now ∧ s.sweep = .idle ∧
      t = { s with sweep := .reading now, reblocked := [] }) ∨
    (∃ now, l = .collect ∧ s.sweep = .reading now ∧ expiredKeys s.blocklist now = [] ∧
      t = { s with sweep := .idle }) ∨
    (∃ now, l = .collect ∧ s.sweep = .reading now ∧
      t = { s with sweep := .collected now (expiredKeys s.blocklist now) }) ∨
    (∃ now keys, l = .remove ∧ s.sweep = .collected now keys ∧
      t = { s with
        blocklist := removeKeys s.blocklist keys
        sweep := .idle
        swept := s.swept ++ (removedEntries s.blocklist keys).map fun e => (e, now) }) := by
  unfold SweepStep at h
  cases l with
  | op o =>
    simp only [SweepState.next] at h
    split at h
    · next hnone => exact .inl ⟨o, rfl, hnone, (Option.some.inj h).symm⟩
    · next m hm => exact .inr (.inl ⟨o, m, rfl, hm, (Option.some.inj h).symm⟩)
  | tick now =>
    simp only [SweepState.next] at h
    split at h
    · next hidle => exact .inr (.inr (.inl ⟨now, rfl, hidle, (Option.some.inj h).symm⟩))
    · cases h
  | collect =>
    simp only [SweepState.next] at h
    split at h
    · next now hreading =>
      split at h
      · next hempty =>
        refine .inr (.inr (.inr (.inl ⟨now, rfl, hreading, ?_, (Option.some.inj h).symm⟩)))
        exact List.isEmpty_iff.mp hempty
      · exact .inr (.inr (.inr (.inr (.inl ⟨now, rfl, hreading, (Option.some.inj h).symm⟩))))
    · cases h
  | remove =>
    simp only [SweepState.next] at h
    split at h
    · next now keys hcollected =>
      exact .inr (.inr (.inr (.inr (.inr ⟨now, keys, rfl, hcollected, (Option.some.inj h).symm⟩))))
    · cases h

/-- A sweep with nothing beside it does what the two halves of the sequential model do. -/
theorem sweep_runs (config : AutoBlockConfig) (iface : Str) (p : System M) (now : UInt64) :
    ∃ ls s q, Run (SweepStep config) SpareReblocked (.init p.capture.blocklist) ls s ∧
      s.sweep = .idle ∧
      (act config iface (some p) (.sweepCollect now)).bind
        (fun p => act config iface (some p) .sweepRemove) = some q ∧
      s.blocklist = q.capture.blocklist := by
  by_cases hnone : expiredKeys p.capture.blocklist now = []
  · refine ⟨[.tick now, .collect], ⟨p.capture.blocklist, .idle, [], []⟩, _, ?_, rfl, rfl, ?_⟩
    · refine (Run.single (t := ⟨_, .reading now, [], []⟩) (by simp [SpareReblocked]) rfl).snoc
        (by simp [SpareReblocked]) ?_
      simp [SweepStep, SweepState.next, SweepState.init, hnone]
    · simp [hnone, removeKeys]
  · have hcollect : Run (SweepStep config) SpareReblocked (.init p.capture.blocklist)
        [.tick now, .collect] ⟨p.capture.blocklist,
          .collected now (expiredKeys p.capture.blocklist now), [], []⟩ := by
      refine (Run.single (t := ⟨_, .reading now, [], []⟩) (by simp [SpareReblocked]) rfl).snoc
        (by simp [SpareReblocked]) ?_
      simp [SweepStep, SweepState.next, SweepState.init, hnone]
    generalize hkeys : expiredKeys p.capture.blocklist now = keys at hcollect
    have hremove : SweepStep config ⟨p.capture.blocklist, .collected now keys, [], []⟩ .remove
        ⟨removeKeys p.capture.blocklist keys, .idle, [],
          (removedEntries p.capture.blocklist keys).map fun e => (e, now)⟩ := rfl
    exact ⟨_, _, _, hcollect.snoc (by simp [SpareReblocked]) hremove, rfl, rfl, by simp [hkeys]⟩

variable [LawfulPrefixMap M]

/-- An operation that updates the map leaves the entries of other prefixes, and what it stores. -/
theorem mem_apply {config : AutoBlockConfig} {o : MapOp} {m m' : M}
    (h : o.apply config m = some m') (e : PrefixKey 32 × UInt64) :
    e ∈ PrefixMap.entries m' ↔
      e ∈ o.stored config ∨ e ∈ PrefixMap.entries m ∧ ¬ e.1.Same (o.key config) := by
  cases o with
  | block ip prefixLen expiryNs =>
    rw [LawfulPrefixMap.mem_insert h e]
    simp [MapOp.stored, MapOp.key, eq_comm]
  | unblock ip prefixLen =>
    simp only [MapOp.apply, Option.some.injEq] at h
    subst h
    simp [MapOp.stored, MapOp.key, mem_remove_getD]

/-- Removing keys leaves exactly the entries of the other prefixes. -/
theorem mem_removeKeys {m : M} {keys : List (PrefixKey 32)} {e : PrefixKey 32 × UInt64} :
    e ∈ PrefixMap.entries (removeKeys m keys) ↔
      e ∈ PrefixMap.entries m ∧ ∀ k ∈ keys, ¬ e.1.Same k := by
  induction keys generalizing m with
  | nil => simp [removeKeys]
  | cons k keys ih =>
    have hrest : e ∈ PrefixMap.entries (removeKeys m (k :: keys)) ↔
        e ∈ PrefixMap.entries ((PrefixMap.remove m k).getD m) ∧ ∀ k ∈ keys, ¬ e.1.Same k := ih
    rw [hrest, mem_remove_getD, List.forall_mem_cons, and_assoc]

/-- An entry that has not expired is of no prefix whose key is collected. -/
theorem not_same_of_mem_expiredKeys {m : M} {now : UInt64} {e : PrefixKey 32 × UInt64}
    (he : e ∈ PrefixMap.entries m) (hnow : now < e.2) {k : PrefixKey 32}
    (hk : k ∈ expiredKeys m now) : ¬ e.1.Same k := by
  intro hsame
  simp only [expiredKeys, List.mem_map, List.mem_filter, decide_eq_true_eq] at hk
  obtain ⟨f, ⟨hf, hexpired⟩, rfl⟩ := hk
  cases eq_of_pairwise_not_same (LawfulPrefixMap.distinct m) he hf hsame
  exact absurd hnow (UInt64.not_lt.mpr hexpired)

/-! ## The invariant -/

/-- What holds of a running sweep: the entries blocked again are stored and not expired at its
reading, and an entry that is not expired and of a collected prefix is one of them. -/
structure SweepInv (s : SweepState M) : Prop where
  stored : s.sweep ≠ .idle → ∀ e ∈ s.reblocked, e ∈ PrefixMap.entries s.blocklist
  later : ∀ now, s.sweep.reading? = some now → ∀ e ∈ s.reblocked, now < e.2
  again : ∀ now keys, s.sweep = .collected now keys →
    ∀ e ∈ PrefixMap.entries s.blocklist, now < e.2 → (∃ k ∈ keys, e.1.Same k) → e ∈ s.reblocked

omit [LawfulPrefixMap M] in
/-- Between two sweeps nothing is asked. -/
theorem SweepInv.of_idle {s : SweepState M} (h : s.sweep = .idle) : SweepInv s := by
  constructor
  · exact fun hrun => absurd h hrun
  · intro now hnow
    simp [h, Sweep.reading?] at hnow
  · intro now keys hcollected
    simp [h] at hcollected

/-- What an operation leaves in the record is stored, if the record was. -/
theorem mem_entries_of_reblockedAfter {config : AutoBlockConfig} {s : SweepState M} {o : MapOp}
    {m : M} (hm : o.apply config s.blocklist = some m)
    (hstored : ∀ e ∈ s.reblocked, e ∈ PrefixMap.entries s.blocklist) :
    ∀ e ∈ s.reblockedAfter config o, e ∈ PrefixMap.entries m := by
  intro e he
  rw [mem_apply hm]
  rcases List.mem_append.mp he with hnew | hold
  · exact .inl (Option.mem_toList.mp (List.mem_filter.mp hnew).1)
  · obtain ⟨hold, hother⟩ := List.mem_filter.mp hold
    exact .inr ⟨hstored e hold, of_decide_eq_true hother⟩

theorem SweepInv.step {config : AutoBlockConfig} {s t : SweepState M} {l : SweepLabel}
    (hs : SweepInv s) (h : SweepStep config s l t) : SweepInv t := by
  obtain ⟨o, rfl, -, rfl⟩ | ⟨o, m, rfl, hm, rfl⟩ | ⟨now, rfl, hidle, rfl⟩ |
    ⟨now, rfl, hreading, -, rfl⟩ | ⟨now, rfl, hreading, rfl⟩ | ⟨now, keys, rfl, hcollected, rfl⟩ :=
    sweepStep_cases h
  · exact hs
  · constructor
    · exact fun hrun => mem_entries_of_reblockedAfter hm (hs.stored hrun)
    · intro now hnow e he
      rcases List.mem_append.mp he with hnew | hold
      · have hlater := (List.mem_filter.mp hnew).2
        simp only [hnow, Option.any_some, decide_eq_true_eq] at hlater
        exact hlater
      · exact hs.later now hnow e (List.mem_filter.mp hold).1
    · intro now keys hcollected e he hnow hkey
      rcases (mem_apply hm e).mp he with hnew | ⟨hold, hother⟩
      · refine List.mem_append_left _ (List.mem_filter.mpr ⟨Option.mem_toList.mpr hnew, ?_⟩)
        simp only at hcollected
        simp [hcollected, Sweep.reading?, hnow]
      · have hmem := hs.again now keys hcollected e hold hnow hkey
        exact List.mem_append_right _ (List.mem_filter.mpr ⟨hmem, decide_eq_true hother⟩)
  · exact ⟨by simp, by simp, by simp⟩
  · exact .of_idle rfl
  · constructor
    · exact fun _ => hs.stored (by simp [hreading])
    · intro now' hnow'
      exact hs.later now' (by rw [hreading]; exact hnow')
    · intro now' keys hcollected e he hnow hkey
      cases hcollected
      obtain ⟨k, hk, hsame⟩ := hkey
      exact absurd hsame (not_same_of_mem_expiredKeys he hnow hk)
  · exact .of_idle rfl

/-! ## What a sweep removes -/

/-- In any run, a removal keeps every entry not expired at its reading exactly when no key it
removes was stored again. -/
theorem removal_keeps_iff {s : SweepState M} (hs : SweepInv s) {now : UInt64}
    {keys : List (PrefixKey 32)} (hcollected : s.sweep = .collected now keys) :
    (∀ e ∈ PrefixMap.entries s.blocklist, now < e.2 →
      e ∈ PrefixMap.entries (removeKeys s.blocklist keys)) ↔
      ∀ e ∈ s.reblocked, ∀ k ∈ keys, ¬ e.1.Same k := by
  constructor
  · intro hkeeps e he k hk
    have hstored := hs.stored (by simp [hcollected]) e he
    have hlater := hs.later now (by simp [hcollected, Sweep.reading?]) e he
    exact (mem_removeKeys.mp (hkeeps e hstored hlater)).2 k hk
  · intro hspare e he hnow
    refine mem_removeKeys.mpr ⟨he, fun k hk hsame => ?_⟩
    exact hspare e (hs.again now keys hcollected e he hnow ⟨k, hk, hsame⟩) k hk hsame

/-- What a sweep has removed was expired at its reading, and what blocks stored since the last
reading is in the map. -/
structure SweptOnlyExpired (s : SweepState M) : Prop where
  expired : ∀ e now, (e, now) ∈ s.swept → e.2 ≤ now
  blocked : ∀ e ∈ s.reblocked, e ∈ PrefixMap.entries s.blocklist

theorem SweptOnlyExpired.step {config : AutoBlockConfig} {s t : SweepState M} {l : SweepLabel}
    (hinv : SweepInv s) (hs : SweptOnlyExpired s) (hok : SpareReblocked s l)
    (h : SweepStep config s l t) : SweptOnlyExpired t := by
  obtain ⟨o, rfl, -, rfl⟩ | ⟨o, m, rfl, hm, rfl⟩ | ⟨now, rfl, hidle, rfl⟩ |
    ⟨now, rfl, hreading, -, rfl⟩ | ⟨now, rfl, hreading, rfl⟩ | ⟨now, keys, rfl, hcollected, rfl⟩ :=
    sweepStep_cases h
  · exact hs
  · exact ⟨hs.expired, mem_entries_of_reblockedAfter hm hs.blocked⟩
  · exact ⟨hs.expired, by simp⟩
  · exact ⟨hs.expired, hs.blocked⟩
  · exact ⟨hs.expired, hs.blocked⟩
  · have hspare : ∀ e ∈ s.reblocked, ∀ k ∈ keys, ¬ e.1.Same k := by
      simpa [hcollected, Sweep.keys] using hok rfl
    constructor
    · intro e now' he
      rcases List.mem_append.mp he with hold | hnew
      · exact hs.expired e now' hold
      · -- had it not been expired, the removal would have kept it
        obtain ⟨f, hf, hfe⟩ := List.mem_map.mp hnew
        cases hfe
        obtain ⟨hmem, hgone⟩ := List.mem_filter.mp hf
        refine UInt64.not_lt.mp fun hnow => of_decide_eq_true hgone ?_
        exact (removal_keeps_iff hinv hcollected).mpr hspare e hmem hnow
    · exact fun e he => mem_removeKeys.mpr ⟨hs.blocked e he, hspare e he⟩

/-- In every interleaving in which no sweep removes a key stored again since its reading, the sweeps
remove only entries expired at their readings, and what is blocked again while a sweep runs stays
blocked. -/
theorem swept_only_expired (config : AutoBlockConfig) (m : M) {ls : List SweepLabel}
    {s : SweepState M} (h : Run (SweepStep config) SpareReblocked (.init m) ls s) :
    SweptOnlyExpired s := by
  have hboth : SweepInv s ∧ SweptOnlyExpired s := by
    refine h.invariant (I := fun s => SweepInv s ∧ SweptOnlyExpired s)
      ⟨SweepInv.of_idle rfl, ?_⟩ fun t l u ht hok hstep => ⟨ht.1.step hstep, ht.2.step ht.1 hok hstep⟩
    exact ⟨by simp [SweepState.init], by simp [SweepState.init]⟩
  exact hboth.2

end

/-- A map with an expired block of 10.0.0.9. -/
def expiredMap : ListTrie 32 UInt64 16 :=
  (PrefixMap.insert PrefixMap.empty (blockKey (Ipv4Addr.new 10 0 0 9) 32) 100).getD
    PrefixMap.empty

/-- The sweep collects that entry, a host is blocked, and the sweep removes the entry. -/
def blockDuringSweep (last : UInt8) : List SweepLabel :=
  [.tick 200, .collect, .op (.block (Ipv4Addr.new 10 0 0 last) none 500), .remove]

/-- Another host is blocked: the sweep removes the expired entry, and the block stays. -/
theorem swept_otherBlocked :
    ∃ s, Run (SweepStep .default) SpareReblocked (.init expiredMap) (blockDuringSweep 8) s ∧
      SweptOnlyExpired s ∧ s.swept = [((⟨32, Ipv4Addr.new 10 0 0 9⟩, 100), 200)] ∧
      s.reblocked = [(⟨32, Ipv4Addr.new 10 0 0 8⟩, 500)] := by
  have hex : ∃ s, Run (SweepStep .default) SpareReblocked (.init expiredMap)
      (blockDuringSweep 8) s ∧ (s.swept = [((⟨32, Ipv4Addr.new 10 0 0 9⟩, 100), 200)] ∧
        s.reblocked = [(⟨32, Ipv4Addr.new 10 0 0 8⟩, 500)]) :=
    Run.exists_of_guarded (fun _ _ _ h => h) (by decide)
  obtain ⟨s, hrun, hswept⟩ := hex
  exact ⟨s, hrun, swept_only_expired .default expiredMap hrun, hswept⟩

/-- The same host is blocked again: the sweep removes the new block, which expires at 500, as
expired at 200. -/
theorem not_swept_only_expired :
    ¬ ∀ (config : AutoBlockConfig) (m : ListTrie 32 UInt64 16) (ls : List SweepLabel)
      (s : SweepState (ListTrie 32 UInt64 16)),
      Run (SweepStep config) (fun _ _ => True) (.init m) ls s → SweptOnlyExpired s := by
  intro h
  have hex : ∃ s, Run (SweepStep .default) (fun _ _ => True) (.init expiredMap)
      (blockDuringSweep 9) s ∧ ((⟨32, Ipv4Addr.new 10 0 0 9⟩, 500), 200) ∈ s.swept :=
    Run.exists_of_any (fun _ _ _ h => ⟨trivial, h⟩) (by decide)
  obtain ⟨s, hrun, hswept⟩ := hex
  exact absurd ((h _ _ _ _ hrun).expired _ _ hswept) (by decide)

end ActiveDefense.Nsm
